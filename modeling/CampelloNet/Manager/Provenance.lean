import CampelloNet.Manager.World

/-!
# Where messages come from

Managers that share a network which carries whole datagrams. What a manager takes from the network and
queues as a message is what an application at the sender's address passed to its own manager, as long
as nobody sends the byte of `disconnect` and no message is the bare prefix of the system's
(`genuine_messages`).
-/

namespace CampelloNet

open Lib Transport
open List hiding lookup

namespace Transport

/-- The transports carry whole datagrams: what waits somewhere was sent by a transport that had the
address it is said to come from, and is received as it was sent. Datagrams may be lost, doubled and
come in any order. -/
structure Carries {σ : Type} (T : ℕ → ITransport σ) (addr : ℕ → σ → Address)
    (onWay : σ → Set (Address × Bytes)) : Prop where
  bind : ∀ t address w, onWay ((T t).bind address w).1 ⊆ onWay w
  connect : ∀ t address w, onWay ((T t).connect address w).1 ⊆ onWay w
  disconnect : ∀ t w, onWay ((T t).disconnect w) ⊆ onWay w
  poll : ∀ t w, onWay ((T t).poll w) ⊆ onWay w
  send : ∀ t data r w, onWay ((T t).send data r w).1 ⊆ insert (addr t w, data) (onWay w)
  sendTo : ∀ t address data r w,
    onWay ((T t).sendTo address data r w).1 ⊆ insert (addr t w, data) (onWay w)
  send_addr : ∀ t u data r w, addr u ((T t).send data r w).1 = addr u w
  sendTo_addr : ∀ t u address data r w, addr u ((T t).sendTo address data r w).1 = addr u w
  rest : ∀ t n w, onWay ((T t).popReceive n w).1 ⊆ onWay w
  received : ∀ {t n w buffer sender}, ((T t).popReceive n w).2 = some (buffer, sender) →
    ∃ msg, (sender, msg) ∈ onWay w ∧ buffer = msg.take n

end Transport

open NetworkManager

/-- Managers that share the world of their transports. -/
structure Managers (σ : Type) where
  world : σ
  manager : ℕ → NetworkManager σ

namespace Managers

variable {σ : Type}

/-- Manager `i` with the world as it is. -/
def manage (s : Managers σ) (i : ℕ) : NetworkManager σ := { s.manager i with world := s.world }

/-- A call of one of the managers. -/
def step (T : ℕ → ITransport σ) (s : Managers σ) (l : ℕ × Call σ) : Option (Managers σ) :=
  ((s.manage l.1).step T l.2).map fun net => ⟨net.world, Function.update s.manager l.1 net⟩

/-! ### Ledgers -/

section
variable (T : ℕ → ITransport σ)

/-- What applications pass to their managers to be sent, with the addresses it may leave from. -/
def passed (addr : ℕ → σ → Address) (s : Managers σ) (run : List (ℕ × Call σ)) :
    List (Address × Bytes) :=
  Run.gather (step T) (fun s l => (userParcels l.2).flatMap fun p =>
    ((s.manage l.1).routes p.target).map fun t => (addr t s.world, p.data)) s run

/-- The messages that manager `i` takes from the network, with the address they are from. -/
def received (i : ℕ) (s : Managers σ) (run : List (ℕ × Call σ)) :
    List (ReceivedMessage × Address) :=
  Run.gather (step T) (fun s l =>
    if l.1 = i then ((s.manage i).handled T l.2).flatMap fun p => p.delivered.map fun m => (m, p.sender)
    else []) s run

/-- The messages that manager `i` hands to its local clients. -/
def handed (i : ℕ) (s : Managers σ) (run : List (ℕ × Call σ)) : List ReceivedMessage :=
  Run.gather (step T) (fun s l =>
    if l.1 = i then
      ((s.manage i).emitted l.2 ++ userParcels l.2).flatMap (s.manage i).session.handed
    else []) s run

/-- The messages that `pop_message` of manager `i` returns. -/
def yielded (i : ℕ) (s : Managers σ) (run : List (ℕ × Call σ)) : List ReceivedMessage :=
  Run.gather (step T) (fun s l => if l.1 = i then (s.manage i).popped l.2 else []) s run

end

/-! ### Admitted calls -/

/-- The network adds nothing of its own. -/
def Faithful (onWay : σ → Set (Address × Bytes)) (s : Managers σ) (l : ℕ × Call σ) : Prop :=
  ∀ world, l.2 = .network world → onWay world ⊆ onWay s.world

/-- The application's messages fit the receive buffer. -/
def Short (_ : Managers σ) (l : ℕ × Call σ) : Prop :=
  ∀ p ∈ userParcels l.2, p.data.length ≤ BUF_SIZE

/-- The call is not that of a connected client to `disconnect`, and a message that it passes is not
the bare prefix of the system's messages. -/
def Clean (s : Managers σ) (l : ℕ × Call σ) : Prop :=
  ¬(s.manage l.1).SendsRaw l.2 ∧ ∀ p ∈ userParcels l.2, p.data ≠ sysMagic

section
variable {T : ℕ → ITransport σ} {addr : ℕ → σ → Address} {onWay : σ → Set (Address × Bytes)}
  (hT : Carries T addr onWay) {P : Set (Address × Bytes)} {s s' : Managers σ}

/-- Every datagram is framed or in `P`. -/
def Known (onWay : σ → Set (Address × Bytes)) (P : Set (Address × Bytes)) (w : σ) : Prop :=
  ∀ x ∈ onWay w, Framed x.2 ∨ x ∈ P

theorem known_insert {w w' : σ} {a : Address} {data : Bytes} (hx : Framed data ∨ (a, data) ∈ P)
    (hsub : onWay w' ⊆ insert (a, data) (onWay w)) (h : Known onWay P w) : Known onWay P w' := by
  intro x hmem
  rcases hsub hmem with rfl | hmem
  · exact hx
  · exact h x hmem

include hT

theorem known_sendsAt : SendsAt T (fun _ => Framed) (Known onWay P) :=
  ⟨fun t data r w hframed => known_insert (.inl hframed) (hT.send t data r w),
    fun t address data r w hframed => known_insert (.inl hframed) (hT.sendTo t address data r w)⟩

theorem known_inert : Inert T (Known onWay P) where
  bind t address w h x hx := h x (hT.bind t address w hx)
  connect t address w h x hx := h x (hT.connect t address w hx)
  disconnect t w h x hx := h x (hT.disconnect t w hx)
  poll t w h x hx := h x (hT.poll t w hx)
  popReceive t n w h x hx := h x (hT.rest t n w hx)

/-- An application's message leaves from an address of its manager. -/
theorem known_post {net : NetworkManager σ} {p : Parcel}
    (hP : ∀ t ∈ net.routes p.target, (addr t net.world, p.data) ∈ P)
    (h : Known onWay P net.world) : Known onWay P (p.post T net).world := by
  have hkeep : SendsAt T (fun t data => t ∈ net.routes p.target ∧ data = p.data)
      fun w => Known onWay P w ∧ ∀ u, addr u w = addr u net.world := by
    constructor
    · rintro t data r w ⟨ht, rfl⟩ ⟨hw, haddr⟩
      refine ⟨known_insert (.inr ?_) (hT.send t p.data r w) hw, fun u => ?_⟩
      · rw [haddr]
        exact hP t ht
      · rw [hT.send_addr, haddr]
    · rintro t address data r w ⟨ht, rfl⟩ ⟨hw, haddr⟩
      refine ⟨known_insert (.inr ?_) (hT.sendTo t address p.data r w) hw, fun u => ?_⟩
      · rw [haddr]
        exact hP t ht
      · rw [hT.sendTo_addr, haddr]
  exact (world_post hkeep (fun t ht => ⟨ht, rfl⟩) ⟨h, fun _ => rfl⟩).1

/-- One call: `Known` holds whenever a packet is handled and, with what the application passes, at
the end. -/
theorem known_step {l : ℕ × Call σ} (hfaithful : s.Faithful onWay l) (hclean : s.Clean l)
    (hstep : s.step T l = some s') (h : Known onWay P s.world)
    (hP : ∀ p ∈ userParcels l.2, ∀ t ∈ (s.manage l.1).routes p.target, (addr t s.world, p.data) ∈ P) :
    (∀ p ∈ (s.manage l.1).handled T l.2, Known onWay P p.net.world) ∧ Known onWay P s'.world := by
  obtain ⟨i, call⟩ := l
  obtain ⟨net', hnet, rfl⟩ := Option.map_eq_some_iff.mp hstep
  by_cases huser : userParcels call = []
  · refine world_step (known_sendsAt hT) (known_inert hT) (fun _ _ hf => hf) hclean.1
      (fun world hw x hx => h x (hfaithful world hw hx)) ?_ hnet h
    rw [huser]
    exact fun p hp => absurd hp not_mem_nil
  · have hpost : ∀ p ∈ userParcels call, net' = p.post T (s.manage i) →
        (s.manage i).handled T call = [] →
        (∀ q ∈ (s.manage i).handled T call, Known onWay P q.net.world) ∧
          Known onWay P net'.world := by
      intro p hp heq hnone
      rw [hnone, heq]
      exact ⟨fun q hq => absurd hq not_mem_nil, known_post hT (hP p hp) h⟩
    cases call with
    | sendToClient client data r =>
      exact hpost _ mem_cons_self (Option.some.inj hnet).symm rfl
    | broadcast data r exclude => exact hpost _ mem_cons_self (Option.some.inj hnet).symm rfl
    | send data r => exact hpost _ mem_cons_self (Option.some.inj hnet).symm rfl
    | _ => exact absurd rfl huser

/-! ### Runs -/

omit hT in
theorem passed_mem {l : ℕ × Call σ} {run : List (ℕ × Call σ)} {p : Parcel}
    (hp : p ∈ userParcels l.2) {t : ℕ} (ht : t ∈ (s.manage l.1).routes p.target) :
    (addr t s.world, p.data) ∈ s.passed T addr (l :: run) :=
  mem_append_left _ (mem_flatMap.mpr ⟨p, hp, mem_map_of_mem ht⟩)

theorem known_run {run : List (ℕ × Call σ)} (hfaithful : Run.Admits (step T) (Faithful onWay) s run)
    (hclean : Run.Admits (step T) Clean s run) (h : Run.exec (step T) s run = some s')
    (hP : ∀ x ∈ s.passed T addr run, x ∈ P) (hs : Known onWay P s.world) :
    Known onWay P s'.world := by
  induction run generalizing s with
  | nil =>
    cases h
    exact hs
  | cons l run ih =>
    obtain ⟨mid, hmid, h⟩ := Option.bind_eq_some_iff.mp h
    obtain ⟨-, hnext⟩ := known_step hT hfaithful.1 hclean.1 hmid hs
      fun p hp t ht => hP _ (passed_mem hp ht)
    refine ih (hfaithful.2 mid hmid) (hclean.2 mid hmid) h (fun x hx => hP x ?_) hnext
    unfold passed at hx ⊢
    rw [Run.gather_cons hmid]
    exact mem_append_right _ hx

/-- What is received was passed by an application, and does not begin as the system's messages do. -/
theorem received_passed {run : List (ℕ × Call σ)} (hway : onWay s.world = ∅)
    (hfaithful : Run.Admits (step T) (Faithful onWay) s run)
    (hshort : Run.Admits (step T) Short s run) (hclean : Run.Admits (step T) Clean s run)
    (h : Run.exec (step T) s run = some s') {i : ℕ} {m : ReceivedMessage} {a : Address}
    (hm : (m, a) ∈ s.received T i run) :
    (a, m.payload) ∈ s.passed T addr run ∧ ¬sysMagic <+: m.payload := by
  obtain ⟨pre, l, post, mid, rfl, hmid, hm⟩ := Run.mem_gather.mp hm
  split_ifs at hm with hi
  · subst hi
    obtain ⟨p, hp, hm⟩ := mem_flatMap.mp hm
    obtain ⟨m', hm', heq⟩ := mem_map.mp hm
    obtain ⟨rfl, rfl⟩ := Prod.mk.inj heq
    have hpre : ∀ x ∈ s.passed T addr pre, x ∈ s.passed T addr (pre ++ l :: post) :=
      fun x hx => Run.gather_prefix hx
    have hknown : Known onWay {x | x ∈ s.passed T addr (pre ++ l :: post)} mid.world := by
      refine known_run hT hfaithful.append.1 hclean.append.1 hmid hpre fun x hx => ?_
      rw [hway] at hx
      cases hx
    have hlater : ∀ q ∈ userParcels l.2, ∀ t ∈ (mid.manage l.1).routes q.target,
        (addr t mid.world, q.data) ∈ s.passed T addr (pre ++ l :: post) := fun q hq t ht =>
      Run.mem_gather.mpr ⟨pre, l, post, mid, rfl, hmid, mem_flatMap.mpr ⟨q, hq, mem_map_of_mem ht⟩⟩
    obtain ⟨next, hnext, -⟩ : ∃ next, mid.step T l = some next ∧
        Run.exec (step T) next post = some s' := by
      rw [Run.exec_append, hmid] at h
      exact Option.bind_eq_some_iff.mp h
    obtain ⟨hpackets, -⟩ := known_step hT (hfaithful.mid hmid) (hclean.mid hmid) hnext hknown hlater
    obtain ⟨msg, hmsg, hbuffer⟩ := hT.received (handled_popped hp)
    -- the packet is neither empty nor a system message
    unfold Handled.delivered fromPeer at hm'
    split_ifs at hm' with hskip
    · cases hm'
    · obtain ⟨id, -, rfl⟩ := Option.map_eq_some_iff.mp (Option.mem_toList.mp hm')
      rw [not_or] at hskip
      obtain ⟨hne, huser⟩ := hskip
      rcases hpackets p hp (p.sender, msg) hmsg with (hempty | hsystem) | hmem
      · rw [hbuffer, show msg = [] from hempty, take_nil] at hne
        exact absurd rfl hne
      · rw [hbuffer] at huser
        exact absurd (isSystem_take hsystem) huser
      · obtain ⟨pre', l', post', u, hrun, hu, hpassed⟩ := Run.mem_gather.mp hmem
        obtain ⟨q, hq, hx⟩ := mem_flatMap.mp hpassed
        obtain ⟨t, -, heq⟩ := mem_map.mp hx
        have hdata : q.data = msg := (Prod.mk.inj heq).2
        rw [hrun] at hshort hclean
        have hlen : msg.length ≤ BUF_SIZE := hdata ▸ hshort.mid hu q hq
        have hwhole : p.buffer = msg := by rw [hbuffer, take_of_length_le hlen]
        refine ⟨hwhole ▸ hmem, fun hprefix => ?_⟩
        obtain ⟨rest, hrest⟩ : ∃ rest, sysMagic ++ rest = p.buffer := hprefix
        rcases rest with _ | ⟨b, rest⟩
        · refine (hclean.mid hu).2 q hq ?_
          rw [hdata, ← hwhole, ← hrest, append_nil]
        · exact huser (by rw [← hrest]; simp [isSystem, sysMagic])
  · cases hm

end

/-- In every run in which no connected client calls `disconnect` and no application passes the bare
prefix of the system's messages, each message that `pop_message` of a manager returns, unless it was
handed to a local client, is byte for byte one that an application passed to the manager at the
address it came from, and does not begin with the prefix. -/
theorem genuine_messages (T : ℕ → ITransport σ) {addr : ℕ → σ → Address}
    {onWay : σ → Set (Address × Bytes)} (hT : Carries T addr onWay) (s s' : Managers σ)
    (run : List (ℕ × Call σ)) (hway : onWay s.world = ∅) (hqueues : ∀ i, (s.manager i).awaiting = [])
    (h : Run.exec (step T) s run = some s') (hfaithful : Run.Admits (step T) (Faithful onWay) s run)
    (hshort : Run.Admits (step T) Short s run) (hclean : Run.Admits (step T) Clean s run) :
    ∀ i, ∀ m ∈ s.yielded T i run, m ∈ s.handed T i run ∨ ∃ a, (m, a) ∈ s.received T i run ∧
      (a, m.payload) ∈ s.passed T addr run ∧ ¬sysMagic <+: m.payload := by
  intro i m hm
  have hledger : Run.gather (step T) (fun s l => if l.1 = i then (s.manage i).popped l.2 else []) s run
        ++ (s'.manager i).awaiting <+~ (s.manager i).awaiting ++ Run.gather (step T)
          (fun s l => if l.1 = i then (s.manage i).delivered T l.2 else []) s run := by
    refine Run.gather_subperm (fun s => (s.manager i).awaiting) (fun u l v hstep => ?_) h
    obtain ⟨net', hnet, rfl⟩ := Option.map_eq_some_iff.mp hstep
    by_cases hi : l.1 = i
    · subst hi
      rw [if_pos rfl, if_pos rfl]
      show _ ++ (Function.update u.manager l.1 net' l.1).awaiting <+~ _
      rw [Function.update_self]
      exact (delivers_step hnet).1
    · rw [if_neg hi, if_neg hi, append_nil, nil_append]
      show (Function.update u.manager l.1 net' i).awaiting <+~ _
      rw [Function.update_of_ne (Ne.symm hi)]
  rw [hqueues i, nil_append] at hledger
  obtain ⟨pre, l, post, mid, rfl, hmid, hmem⟩ :=
    Run.mem_gather.mp (hledger.subset (mem_append_left _ hm))
  split_ifs at hmem with hi
  · subst hi
    rcases mem_append.mp hmem with hemitted | huser
    · refine .inl (Run.mem_gather.mpr ⟨pre, l, post, mid, rfl, hmid, ?_⟩)
      rw [if_pos rfl, flatMap_append]
      exact mem_append_left _ hemitted
    rcases mem_append.mp huser with huser | hpacket
    · refine .inl (Run.mem_gather.mpr ⟨pre, l, post, mid, rfl, hmid, ?_⟩)
      rw [if_pos rfl, flatMap_append]
      exact mem_append_right _ huser
    · obtain ⟨p, hp, hdelivered⟩ := mem_flatMap.mp hpacket
      have hreceived : (m, p.sender) ∈ s.received T l.1 (pre ++ l :: post) := by
        refine Run.mem_gather.mpr ⟨pre, l, post, mid, rfl, hmid, ?_⟩
        rw [if_pos rfl]
        exact mem_flatMap.mpr ⟨p, hp, mem_map_of_mem hdelivered⟩
      exact .inr ⟨p.sender, hreceived, received_passed hT hway hfaithful hshort hclean h hreceived⟩
  · cases hmem

end Managers

/-! ### The loopback transport -/

namespace Transport.LoopbackTransport

open Loopback

def origin (pkt : Packet) : Address × Bytes := (pkt.sender, pkt.data)

/-- The datagrams that wait at a transport, to be received or to be handed over. -/
def waiting (impl : Impl) : List (Address × Bytes) :=
  (impl.pendingRecv ++ impl.readyRecv).map origin ++
    impl.delayedOutbound.map fun dp => (dp.sender, dp.data)

def onWay (hub : LoopbackHub) : Set (Address × Bytes) := {x | ∃ id, x ∈ waiting (hub.transports id)}

def localAddress (id : ℕ) (hub : LoopbackHub) : Address := (hub.transports id).localAddr

variable {hub : LoopbackHub} {S : Set (Address × Bytes)}

theorem onWay_set {id : ℕ} {impl : Impl} (himpl : ∀ x ∈ waiting impl, x ∈ S) (h : onWay hub ⊆ S) :
    onWay (hub.set id impl) ⊆ S := by
  rintro x ⟨u, hx⟩
  change x ∈ waiting (Function.update hub.transports id impl u) at hx
  by_cases hu : u = id
  · subst hu
    rw [Function.update_self] at hx
    exact himpl x hx
  · rw [Function.update_of_ne hu] at hx
    exact h ⟨u, hx⟩

theorem onWay_enqueuePending (id : ℕ) {pkt : Packet} (hpkt : origin pkt ∈ S) (h : onWay hub ⊆ S) :
    onWay (hub.enqueuePending id pkt) ⊆ S := by
  refine onWay_set (fun x hx => ?_) h
  unfold waiting at hx
  simp only [map_append, mem_append] at hx
  rcases hx with ((hx | hx) | hx) | hx
  · exact h ⟨id, by simp [waiting, hx]⟩
  · rw [mem_singleton.mp hx]
    exact hpkt
  · exact h ⟨id, by simp [waiting, hx]⟩
  · exact h ⟨id, by simp [waiting, hx]⟩

theorem onWay_deliver (recipient : Address) {pkt : Packet} (hpkt : origin pkt ∈ S)
    (h : onWay hub ⊆ S) : onWay (hub.deliver recipient pkt) ⊆ S := by
  unfold LoopbackHub.deliver
  split
  · exact h
  · exact onWay_enqueuePending _ hpkt h

theorem onWay_broadcast (serverAddr : Address) {pkt : Packet} (hpkt : origin pkt ∈ S)
    (h : onWay hub ⊆ S) : onWay (hub.broadcast serverAddr pkt) ⊆ S := by
  unfold LoopbackHub.broadcast
  refine foldlRecOn (motive := fun hub => onWay hub ⊆ S) _ _ h ?_
  intro hub' h' c _
  split
  · exact h'
  · exact onWay_enqueuePending _ hpkt h'

theorem onWay_shouldDrop (id : ℕ) (h : onWay hub ⊆ S) : onWay (shouldDrop id hub).1 ⊆ S := by
  unfold shouldDrop
  dsimp only
  split_ifs
  · exact h
  · exact onWay_set (fun x hx => h ⟨id, hx⟩) h

theorem onWay_delay (id : ℕ) {dp : DelayedPacket} (hdp : (dp.sender, dp.data) ∈ S)
    (h : onWay hub ⊆ S) : onWay (delay id dp hub) ⊆ S := by
  refine onWay_set (fun x hx => ?_) h
  unfold waiting at hx
  simp only [map_append, mem_append] at hx
  rcases hx with (hx | hx) | hx | hx
  · exact h ⟨id, by simp [waiting, hx]⟩
  · exact h ⟨id, by simp [waiting, hx]⟩
  · exact h ⟨id, by simp [waiting, hx]⟩
  · rw [mem_singleton.mp hx]
    exact hdp

theorem onWay_poll (id : ℕ) : onWay (poll id hub) ⊆ onWay hub := by
  have hall : ∀ x ∈ waiting (hub.transports id), x ∈ onWay hub := fun x hx => ⟨id, hx⟩
  have hmove : ∀ h' : LoopbackHub, onWay h' ⊆ onWay hub →
      onWay (h'.set id { h'.transports id with
        readyRecv := (h'.transports id).readyRecv ++ (h'.transports id).pendingRecv
        pendingRecv := [] }) ⊆ onWay hub := by
    intro h' hh
    refine onWay_set (fun x hx => hh ⟨id, ?_⟩) hh
    unfold waiting at hx ⊢
    simp only [map_append, mem_append, map_nil, not_mem_nil, false_or] at hx ⊢
    tauto
  unfold poll
  dsimp only
  apply hmove
  refine foldlRecOn (motive := fun hub' => onWay hub' ⊆ onWay hub) _ _ ?_ ?_
  · refine onWay_set (fun x hx => hall x ?_) (fun _ hx => hx)
    unfold waiting at hx ⊢
    rcases mem_append.mp hx with hx | hx
    · exact mem_append_left _ hx
    · obtain ⟨dp, hdp, rfl⟩ := mem_map.mp hx
      exact mem_append_right _ (mem_map_of_mem (mem_filter.mp hdp).1)
  · intro hub' h' dp hdp
    have horigin : (dp.sender, dp.data) ∈ onWay hub :=
      hall _ (mem_append_right _ (mem_map_of_mem (mem_filter.mp hdp).1))
    split_ifs
    · exact onWay_broadcast dp.sender horigin h'
    · exact onWay_deliver dp.recipient horigin h'

/-! Sending leaves addresses alone. -/

theorem localAddress_set {id u : ℕ} {impl : Impl} (h : impl.localAddr = (hub.transports id).localAddr) :
    localAddress u (hub.set id impl) = localAddress u hub := by
  show (Function.update hub.transports id impl u).localAddr = _
  by_cases hu : u = id
  · subst hu
    rw [Function.update_self]
    exact h
  · rw [Function.update_of_ne hu]
    rfl

theorem localAddress_enqueuePending (id u : ℕ) (pkt : Packet) :
    localAddress u (hub.enqueuePending id pkt) = localAddress u hub := localAddress_set rfl

theorem localAddress_delay (id u : ℕ) (dp : DelayedPacket) :
    localAddress u (delay id dp hub) = localAddress u hub := localAddress_set rfl

theorem localAddress_deliver (u : ℕ) (recipient : Address) (pkt : Packet) :
    localAddress u (hub.deliver recipient pkt) = localAddress u hub := by
  unfold LoopbackHub.deliver
  split
  · rfl
  · exact localAddress_enqueuePending _ u pkt

theorem localAddress_broadcast (u : ℕ) (serverAddr : Address) (pkt : Packet) :
    localAddress u (hub.broadcast serverAddr pkt) = localAddress u hub := by
  unfold LoopbackHub.broadcast
  refine foldlRecOn (motive := fun hub' => localAddress u hub' = localAddress u hub) _ _ rfl ?_
  intro hub' h' c _
  split
  · exact h'
  · exact (localAddress_enqueuePending _ u pkt).trans h'

theorem localAddress_shouldDrop (id u : ℕ) :
    localAddress u (shouldDrop id hub).1 = localAddress u hub := by
  unfold shouldDrop
  dsimp only
  split_ifs
  · rfl
  · exact localAddress_set rfl

theorem localAddress_send (id u : ℕ) (data : Bytes) (r : PacketReliability) :
    localAddress u (send id data r hub).1 = localAddress u hub := by
  have hdrop : localAddress u (shouldDrop id hub).1 = localAddress u hub :=
    localAddress_shouldDrop id u
  unfold send
  dsimp only
  split_ifs
  · exact hdrop
  · exact (localAddress_delay id u _).trans hdrop
  · exact (localAddress_delay id u _).trans hdrop
  · exact (localAddress_broadcast u _ _).trans hdrop
  · exact (localAddress_deliver u _ _).trans hdrop
  · exact hdrop

theorem localAddress_sendTo (id u : ℕ) (address : Address) (data : Bytes) (r : PacketReliability) :
    localAddress u (sendTo id address data r hub).1 = localAddress u hub := by
  have hdrop : localAddress u (shouldDrop id hub).1 = localAddress u hub :=
    localAddress_shouldDrop id u
  unfold sendTo
  dsimp only
  split_ifs
  · rfl
  · exact hdrop
  · exact (localAddress_delay id u _).trans hdrop
  · exact (localAddress_deliver u _ _).trans hdrop

/-- A hub carries whole datagrams. -/
theorem carries : Carries loopback localAddress onWay where
  bind id address hub := by
    show onWay (bind id address hub).1 ⊆ onWay hub
    unfold bind
    dsimp only
    split_ifs
    · exact fun _ hx => hx
    · exact onWay_set (fun x hx => ⟨id, hx⟩) fun _ hx => hx
  connect id address hub := by
    show onWay (connect id address hub).1 ⊆ onWay hub
    unfold connect
    dsimp only
    split_ifs
    · exact fun _ hx => hx
    · unfold LoopbackHub.connectClient
      split_ifs
      · exact fun _ hx => hx
      · exact onWay_set (fun x hx => ⟨id, hx⟩) fun _ hx => hx
  disconnect id hub := by
    show onWay (disconnect id hub) ⊆ onWay hub
    have hkeep : ∀ h' : LoopbackHub, h'.transports = hub.transports →
        onWay (h'.set id { hub.transports id with
          bound := false, connected := false, localAddr := .invalid, remoteAddr := .invalid
          pendingRecv := [], readyRecv := [] }) ⊆ onWay hub := by
      intro h' heq
      refine onWay_set (fun x hx => ⟨id, mem_append_right _ ?_⟩) ?_
      · simpa [waiting] using hx
      · rintro x ⟨u, hx⟩
        rw [heq] at hx
        exact ⟨u, hx⟩
    unfold disconnect
    dsimp only
    split_ifs <;> exact hkeep _ rfl
  poll id hub := onWay_poll id
  send id data r hub := by
    show onWay (send id data r hub).1 ⊆ insert (localAddress id hub, data) (onWay hub)
    have hdrop := onWay_shouldDrop (S := insert (localAddress id hub, data) (onWay hub)) id
      (Set.subset_insert _ (onWay hub))
    have haddr : ((shouldDrop id hub).1.transports id).localAddr = localAddress id hub :=
      localAddress_shouldDrop id id
    unfold send
    dsimp only
    split_ifs
    · exact hdrop
    · exact onWay_delay id (by rw [haddr]; exact Set.mem_insert _ _) hdrop
    · exact onWay_delay id (by rw [haddr]; exact Set.mem_insert _ _) hdrop
    · refine onWay_broadcast _ ?_ hdrop
      unfold origin
      rw [haddr]
      exact Set.mem_insert _ _
    · refine onWay_deliver _ ?_ hdrop
      unfold origin
      rw [haddr]
      exact Set.mem_insert _ _
    · exact hdrop
  sendTo id address data r hub := by
    show onWay (sendTo id address data r hub).1 ⊆ insert (localAddress id hub, data) (onWay hub)
    have hdrop := onWay_shouldDrop (S := insert (localAddress id hub, data) (onWay hub)) id
      (Set.subset_insert _ (onWay hub))
    have haddr : ((shouldDrop id hub).1.transports id).localAddr = localAddress id hub :=
      localAddress_shouldDrop id id
    unfold sendTo
    dsimp only
    split_ifs
    · exact Set.subset_insert _ _
    · exact hdrop
    · exact onWay_delay id (by rw [haddr]; exact Set.mem_insert _ _) hdrop
    · refine onWay_deliver _ ?_ hdrop
      unfold origin
      rw [haddr]
      exact Set.mem_insert _ _
  send_addr id u data r hub := localAddress_send id u data r
  sendTo_addr id u address data r hub := localAddress_sendTo id u address data r
  rest id n hub := by
    show onWay (popReceive id n hub).1 ⊆ onWay hub
    unfold popReceive
    split
    · exact fun _ hx => hx
    · rename_i pkt rest hready
      refine onWay_set (fun x hx => ⟨id, ?_⟩) fun _ hx => hx
      unfold waiting at hx ⊢
      simp only [map_append, mem_append, hready, map_cons, mem_cons] at hx ⊢
      tauto
  received {id n hub buffer sender} h := by
    have hpop : (popReceive id n hub).2 = some (buffer, sender) := h
    unfold popReceive at hpop
    rcases hready : (hub.transports id).readyRecv with _ | ⟨pkt, rest⟩
    · rw [hready] at hpop
      cases hpop
    · rw [hready] at hpop
      obtain ⟨rfl, rfl⟩ := Prod.mk.inj (Option.some.inj hpop)
      exact ⟨pkt.data, ⟨id, by simp [waiting, hready, origin]⟩, rfl⟩

end Transport.LoopbackTransport

/-! ### A server and a client -/

namespace Managers

open LoopbackTransport

def fresh : Managers LoopbackHub where
  world := {}
  manager _ := { world := {} }

/-- Manager 0 starts as a server and manager 1 as its client. -/
def meeting : List (ℕ × Call LoopbackHub) :=
  [(0, .start serverConfig 0),
    (1, .start { mode := .client, serverAddress := LoopbackHub.serverAddr } 1),
    (0, pollCall 1), (1, pollCall 1)]

/-- The client sends a message. -/
def talk : List (ℕ × Call LoopbackHub) :=
  meeting ++ [(1, .send [7, 8] .reliableOrdered), (0, pollCall 1), (0, .popMessage)]

/-- The client disconnects without having sent a message. -/
def goodbye : List (ℕ × Call LoopbackHub) :=
  meeting ++ [(1, .disconnect), (0, pollCall 2), (0, .popMessage)]

theorem talk_calls : ∀ l ∈ talk, (∀ world, l.2 ≠ .network world) ∧ l.2 ≠ .disconnect ∧
    ∀ p ∈ userParcels l.2, p.data = [7, 8] := by
  intro l hl
  simp only [talk, meeting, cons_append, nil_append, mem_cons, not_mem_nil, or_false] at hl
  rcases hl with rfl | rfl | rfl | rfl | rfl | rfl | rfl <;>
    exact ⟨fun _ => nofun, nofun, by simp [userParcels, pollCall]⟩

theorem genuine_messages_talk : ∃ s', Run.exec (step loopback) fresh talk = some s' ∧
    fresh.yielded loopback 0 talk = [⟨1, [7, 8]⟩] ∧
    fresh.received loopback 0 talk = [(⟨1, [7, 8]⟩, LoopbackHub.clientAddr)] ∧
    ∀ m ∈ fresh.yielded loopback 0 talk, m ∈ fresh.handed loopback 0 talk ∨
      ∃ a, (m, a) ∈ fresh.received loopback 0 talk ∧
        (a, m.payload) ∈ fresh.passed loopback localAddress talk ∧ ¬sysMagic <+: m.payload := by
  obtain ⟨s', h⟩ := Option.isSome_iff_exists.mp
    (show (Run.exec (step loopback) fresh talk).isSome by decide +kernel)
  have hway : onWay fresh.world = ∅ := by
    refine Set.eq_empty_of_forall_notMem ?_
    rintro x ⟨id, hx⟩
    cases hx
  have hfaithful : Run.Admits (step loopback) (Faithful onWay) fresh talk :=
    .of_forall (fun l hl s world hw => absurd hw ((talk_calls l hl).1 world)) fresh
  have hshort : Run.Admits (step loopback) Short fresh talk := by
    refine .of_forall (fun l hl s p hp => ?_) fresh
    rw [(talk_calls l hl).2.2 p hp]
    decide
  have hclean : Run.Admits (step loopback) Clean fresh talk := by
    refine .of_forall (fun l hl s => ⟨fun hraw => (talk_calls l hl).2.1 hraw.1, fun p hp => ?_⟩) fresh
    rw [(talk_calls l hl).2.2 p hp]
    decide
  exact ⟨s', h, by decide +kernel, by decide +kernel,
    genuine_messages loopback carries fresh s' talk hway (fun _ => rfl) h hfaithful hshort hclean 0⟩

/-- The server yields the byte 3 as a message of the client, whose application has passed nothing. -/
theorem invented_message : fresh.yielded loopback 0 goodbye = [⟨1, [3]⟩] ∧
    fresh.received loopback 0 goodbye = [(⟨1, [3]⟩, LoopbackHub.clientAddr)] ∧
    fresh.handed loopback 0 goodbye = [] ∧ fresh.passed loopback localAddress goodbye = [] := by
  decide +kernel

end Managers

end CampelloNet
