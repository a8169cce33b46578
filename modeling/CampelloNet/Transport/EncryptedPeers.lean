import CampelloNet.Transport.EncryptedDelivery

/-!
# Who is kept apart

A received packet names its key and its window by its first byte, whatever the role of the transport
that receives it. A server therefore accepts what it sealed itself when that comes back, and a client
what a client sealed, unless the counters that came before close it (`no_reflection_iff`). Two peers
are kept apart if and only if their hashes differ and neither can reach the window of the other
direction (`peers_isolated_iff`).
-/

namespace CampelloNet.Transport.EncryptedTransport

open Lib Crypto Encrypted

variable {σ τ : Type}

/-! ### Reflection -/

/-- A packet that is sealed for `dest` under a key: by `send` for the server, by `send_to` for a
client. -/
def SealedFor (key : Bytes) (dest : Peer) (received : Bytes) : Prop :=
  ∃ counter data, received = packet ((new () key).outboundKey dest) counter data

/-- The counter of a packet that comes to the replay check of `peer`: one that is long enough, fits the
buffer and names the peer by its first byte. -/
def Delivery.counterFor (peer : Peer) (d : Delivery) : Option UInt64 :=
  if OVERHEAD ≤ d.packet.length ∧ d.packet.length - NONCE_SIZE - TAG_SIZE ≤ d.maxLength ∧
      claimed (directionOf (nonceIn d.packet)) d.sender = some peer then
    some (counterOf (nonceIn d.packet))
  else none

/-- The packet fits and was sealed with the key that its first byte names, but with a nonce that none
for `dest` has: that of the other direction, or one whose unused bytes are not zero. -/
structure Delivery.Foreign (key : Bytes) (dest : Peer) (d : Delivery) (peer : Peer) (data : Bytes) :
    Prop where
  named : claimed (directionOf (nonceIn d.packet)) d.sender = some peer
  sealed : d.packet = stamped ((new () key).inboundKey peer) (nonceIn d.packet) data
  other : ∀ counter, nonceIn d.packet ≠ nonceOf ((new () key).outboundKey dest).2 counter
  fits : data.length ≤ d.maxLength

theorem Delivery.counterFor_eq_some_iff {peer : Peer} {d : Delivery} {counter : UInt64} :
    d.counterFor peer = some counter ↔
      OVERHEAD ≤ d.packet.length ∧ d.packet.length - NONCE_SIZE - TAG_SIZE ≤ d.maxLength ∧
        claimed (directionOf (nonceIn d.packet)) d.sender = some peer ∧
        counterOf (nonceIn d.packet) = counter := by
  unfold Delivery.counterFor
  split_ifs with h
  · simp [h]
  · simp only [reduceCtorEq, false_iff]
    exact fun ⟨hlong, hfits, hnamed, _⟩ => h ⟨hlong, hfits, hnamed⟩

theorem counters_openReceived (enc : EncryptedTransport σ) (d : Delivery) (peer : Peer) :
    (enc.openReceived d.maxLength d.packet d.sender).1.counters peer =
      (d.counterFor peer).elim (enc.counters peer) fun counter =>
        (checkReplay (enc.counters peer) counter).1 := by
  rcases hcounter : d.counterFor peer with _ | counter
  · rw [Option.elim_none]
    rcases openReceived_cases enc d.maxLength d.packet d.sender with hnone | ⟨key, p, haddr⟩
    · rw [hnone]
    · have hne : peer ≠ p := by
        rintro rfl
        have hsome := Delivery.counterFor_eq_some_iff.mpr
          ⟨haddr.long, haddr.fits, haddr.named.1, rfl⟩
        rw [hcounter] at hsome
        cases hsome
      rw [openReceived_of_addressed haddr, counters_setCounters_ne _ _ _ hne]
  · obtain ⟨hlong, hfits, hnamed, rfl⟩ := Delivery.counterFor_eq_some_iff.mp hcounter
    have haddr : enc.Addressed d.maxLength d.packet d.sender (enc.inboundKey peer) peer :=
      ⟨hlong, hfits, by rw [inbound_eq, hnamed, Option.map_some]⟩
    rw [openReceived_of_addressed haddr, counters_setCounters_self, Option.elim_some]

def takenBy (peer : Peer) (past : List Delivery) : List UInt64 :=
  takenOf (past.filterMap (Delivery.counterFor peer))

/-- In a run from creation every window is what the deliveries leave. -/
theorem keeps_arrivals (T : ITransport σ) (inner : σ) (key : Bytes) (uses : List Use) (peer : Peer)
    {before : List (Arrival σ)} {a : Arrival σ} {after : List (Arrival σ)}
    (h : arrivals T (new inner key) uses = before ++ a :: after) :
    Keeps (a.before.counters peer) (takenBy peer (before.map Arrival.delivery)) := by
  have hkeeps := (arrivals_rule (T := T) (Q := fun _ => True)
    (I := fun past e => Keeps (e.counters peer) (takenBy peer (past.map Arrival.delivery)))
    (fun past e e' hagree hI => hI.congr (hagree.windows peer trivial))
    (fun past b _ _ hI => by
      have hnext : b.next.counters peer = _ :=
        counters_openReceived b.before b.delivery peer
      unfold takenBy at hI ⊢
      rw [hnext, List.map_append, List.filterMap_append, List.map_singleton]
      rcases hcounter : b.delivery.counterFor peer with _ | counter
      · rw [List.filterMap_cons_none hcounter, List.filterMap_nil, List.append_nil]
        exact hI
      · rw [List.filterMap_cons_some hcounter, List.filterMap_nil, takenOf_snoc]
        exact hI.next)
    (fun _ _ => trivial) [] (by cases peer <;> exact keeps_start) h).2
  rwa [List.nil_append] at hkeeps

/-- A transport accepts only what is sealed for `dest` if and only if every other packet that is sealed
comes when its counter is closed by those that its peer's check has let pass. -/
theorem no_reflection_iff (T : ITransport σ) (inner : σ) (key : Bytes) (uses : List Use)
    (dest : Peer) :
    (∀ a ∈ arrivals T (new inner key) uses, a.accepted → SealedFor key dest a.packet) ↔
      ∀ before d after,
        (arrivals T (new inner key) uses).map Arrival.delivery = before ++ d :: after →
        ∀ peer data, d.Foreign key dest peer data →
          Closed (takenBy peer before) (counterOf (nonceIn d.packet)) := by
  constructor
  · intro hall before d after hsplit peer data hforeign
    obtain ⟨past, rest, hrun, rfl, hrest⟩ := List.map_eq_append_iff.mp hsplit
    obtain ⟨a, later, rfl, rfl, -⟩ := List.map_eq_cons_iff.mp hrest
    have ha : a ∈ arrivals T (new inner key) uses := by simp [hrun]
    obtain ⟨hsound, hkeys⟩ := keys_of_mem ha
    by_contra hopen
    have hauth : a.before.Authentic a.maxLength a.packet a.sender peer data :=
      ⟨hforeign.named, by rw [hkeys]; exact hforeign.sealed, hforeign.fits⟩
    obtain ⟨counter, data', hpacket⟩ := hall a ha (hsound.accepted_iff.mpr
      ⟨peer, data, hauth, (keeps_arrivals T inner key uses peer hrun).passes_iff.mpr hopen⟩)
    refine hforeign.other counter ?_
    rw [show a.delivery.packet = a.packet from rfl, hpacket, packet_eq, nonceIn_stamped]
  · intro hall a ha hacc
    obtain ⟨past, later, hrun⟩ := List.append_of_mem ha
    obtain ⟨hsound, hkeys⟩ := keys_of_mem ha
    obtain ⟨peer, data, hauth, hopen⟩ := hsound.accepted_iff.mp hacc
    have hsealed : a.packet = stamped ((new () key).inboundKey peer) (nonceIn a.packet) data :=
      hkeys peer ▸ hauth.sealed
    by_contra hnot
    have hforeign : a.delivery.Foreign key dest peer data := by
      refine ⟨hauth.named, hsealed, fun counter hnonce => hnot ⟨counter, data, ?_⟩, hauth.fits⟩
      have hnamed := hauth.named
      rw [show nonceIn a.packet = _ from hnonce] at hnamed hsealed
      obtain rfl := Option.some.inj
        ((claimed_outboundKey (new () key) dest a.sender).symm.trans hnamed)
      rwa [inboundKey_facing] at hsealed
    refine (keeps_arrivals T inner key uses peer hrun).passes_iff.mp hopen
      (hall (past.map Arrival.delivery) a.delivery (later.map Arrival.delivery) ?_ peer data hforeign)
    rw [hrun, List.map_append, List.map_cons]

/-! ### A packet that comes back -/

open LoopbackHub

def reflecting : EncryptedTransport LoopbackHub :=
  new (holding [(firstPacket sharedKey (.client (addressHash clientAddr)) [1], clientAddr)]) sharedKey

def reflectingUses : List Use :=
  .call (.sendTo clientAddr [1] .reliableOrdered) :: pops 1 1

theorem reflected_outputs :
    (arrivals (LoopbackTransport.iTransport 0) reflecting reflectingUses).map Arrival.delivery =
        [⟨1, firstPacket sharedKey (.client (addressHash clientAddr)) [1], clientAddr⟩] ∧
      (arrivals (LoopbackTransport.iTransport 0) reflecting reflectingUses).map Arrival.output =
        [some ([1], clientAddr)] := by
  have hqueue : LoopbackTransport.ready 0 (reflecting.sendTo (LoopbackTransport.iTransport 0) clientAddr
      [1] .reliableOrdered).1.inner =
      [(firstPacket sharedKey (.client (addressHash clientAddr)) [1], clientAddr)] := by
    unfold sendTo
    rw [sendSealed_eq]
    dsimp only
    rw [(LoopbackTransport.queued 0).sendTo]
    exact ready_holding _
  have hdeliveries := deliveries_pops (LoopbackTransport.queued 0)
    (reflecting.sendTo (LoopbackTransport.iTransport 0) clientAddr [1] .reliableOrdered).1 1 1 (by
      rw [hqueue]
      simp [length_firstPacket])
  rw [hqueue] at hdeliveries
  have houtputs := outputs_eq_replies (LoopbackTransport.iTransport 0)
    (reflecting.sendTo (LoopbackTransport.iTransport 0) clientAddr [1] .reliableOrdered).1 (pops 1 1)
  refine ⟨hdeliveries, houtputs.trans ?_⟩
  have hagree : Agree (fun _ => True) (reflecting.sendTo (LoopbackTransport.iTransport 0) clientAddr
      [1] .reliableOrdered).1 (new () sharedKey) := by
    refine (agree_sendSealed _ _ _).symm.trans ⟨fun p => ?_, fun p _ => ?_⟩
    · cases p <;> rfl
    · cases p <;> rfl
  have hopen := openReceived_firstPacket (.client (addressHash clientAddr)) clientAddr hagree trivial
    (show [1].length ≤ 1 from le_refl 1)
  rw [hdeliveries, List.take_of_length_le (by simp), List.map_cons, List.map_nil, replies_cons]
  dsimp only
  rw [hopen]
  rfl

theorem reflected_accepted :
    firstPacket sharedKey (.client (addressHash clientAddr)) [1] =
        packet (reflecting.outboundKey (.client (addressHash clientAddr)))
          (reflecting.counters (.client (addressHash clientAddr))).outbound [1] ∧
      ¬∀ a ∈ arrivals (LoopbackTransport.iTransport 0) reflecting reflectingUses,
        a.accepted → SealedFor sharedKey .server a.packet := by
  refine ⟨rfl, fun hall => ?_⟩
  obtain ⟨hdeliveries, houtputs⟩ := reflected_outputs
  obtain ⟨a, as, hlist, ha, -⟩ := List.map_eq_cons_iff.mp hdeliveries
  rw [hlist] at houtputs hall
  have hacc : a.accepted = true := by
    unfold Arrival.accepted
    rw [(List.cons.inj houtputs).1]
    rfl
  obtain ⟨counter, data, hpacket⟩ := hall a List.mem_cons_self hacc
  have hnonce := congrArg nonceIn (hpacket.symm.trans (congrArg Delivery.packet ha))
  rw [packet_eq, nonceIn_stamped] at hnonce
  change _ = nonceIn (firstPacket _ _ _) at hnonce
  rw [firstPacket, packet_eq, nonceIn_stamped] at hnonce
  exact absurd (nonceOf_injective hnonce).1 (by decide)

/-! ### Two runs -/

def Use.sent : Use → Option Call
  | .call (.send data r) => some (.send data r)
  | .call (.sendTo address data r) => some (.sendTo address data r)
  | _ => none

def Call.receiver : Call → Option Address
  | .sendTo address _ _ => some address
  | _ => none

/-- The counters that a run uses for `send_to(B)`, in order. -/
def countersTo (T : ITransport σ) (B : Address) : EncryptedTransport σ → List Use → List UInt64
  | _, [] => []
  | enc, u :: us =>
    (if u.sent.bind Call.receiver = some B then
      [(enc.counters (.client (addressHash B))).outbound] else []) ++
      countersTo T B (use T enc u) us

def heard (B : Address) (as : List (Arrival σ)) : List (Delivery × Option (Bytes × Address)) :=
  (as.filter fun a => a.sender = B).map fun a => (a.delivery, a.output)

/-- Two runs of transports with one key that send the same, and receive the same but for packets from
`A`; those carry the byte of the other direction only if `reflected`. -/
structure DifferBy (A : Address) (reflected : Bool) (uses uses' : List Use) (as : List (Arrival σ))
    (as' : List (Arrival τ)) : Prop where
  sent : uses.filterMap Use.sent = uses'.filterMap Use.sent
  received : (as.map Arrival.delivery).filter (fun d => d.sender ≠ A) =
    (as'.map Arrival.delivery).filter fun d => d.sender ≠ A
  direction : ∀ d ∈ as.map Arrival.delivery ++ as'.map Arrival.delivery, d.sender = A →
    directionOf (nonceIn d.packet) = DIR_SERVER_TO_CLIENT → reflected

def numbersTo (B : Address) : UInt64 → List Call → List UInt64
  | _, [] => []
  | c, x :: xs =>
    (if x.receiver = some B then [c] else []) ++
      numbersTo B (c + if x.peer = some (.client (addressHash B)) then 1 else 0) xs

theorem use_outbound (T : ITransport σ) (enc : EncryptedTransport σ) (u : Use) (p : Peer) :
    ((use T enc u).counters p).outbound =
      (enc.counters p).outbound + (if u.sent.bind Call.peer = some p then 1 else 0) := by
  have hinner : ∀ inner : σ, (counters { enc with inner := inner } p).outbound =
      (enc.counters p).outbound + 0 := by
    intro inner
    rw [UInt64.add_zero]
    cases p <;> rfl
  cases u with
  | bind address => exact hinner _
  | connect address => exact hinner _
  | disconnect => exact hinner _
  | call c =>
    refine (call_outbound T enc c p).1.trans ?_
    cases c <;> rfl

theorem countersTo_eq (T : ITransport σ) (B : Address) (enc : EncryptedTransport σ)
    (uses : List Use) : countersTo T B enc uses =
      numbersTo B (enc.counters (.client (addressHash B))).outbound (uses.filterMap Use.sent) := by
  induction uses generalizing enc with
  | nil => rfl
  | cons u us ih =>
    have hout := use_outbound T enc u (.client (addressHash B))
    rw [countersTo, ih, hout]
    rcases hsent : u.sent with _ | c
    · rw [List.filterMap_cons_none hsent, Option.bind_none, Option.bind_none, if_neg (by simp),
        if_neg (by simp), UInt64.add_zero, List.nil_append]
    · rw [List.filterMap_cons_some hsent, Option.bind_some, Option.bind_some, numbersTo]

/-! ### What is heard from one address -/

def heardOf (B : Address) (enc : EncryptedTransport σ) (ds : List Delivery) :
    List (Delivery × Option (Bytes × Address)) :=
  (ds.zip (replies enc ds)).filter fun x => x.1.sender = B

theorem heard_eq_zip (B : Address) (as : List (Arrival σ)) : heard B as =
    ((as.map Arrival.delivery).zip (as.map Arrival.output)).filter fun x => x.1.sender = B := by
  unfold heard
  rw [List.zip_map', List.filter_map]
  rfl

theorem heard_eq (T : ITransport σ) (B : Address) (enc : EncryptedTransport σ) (uses : List Use) :
    heard B (arrivals T enc uses) = heardOf B enc ((arrivals T enc uses).map Arrival.delivery) := by
  rw [heard_eq_zip, outputs_eq_replies]
  rfl

theorem heardOf_cons (B : Address) (enc : EncryptedTransport σ) (d : Delivery) (ds : List Delivery) :
    heardOf B enc (d :: ds) =
      (if d.sender = B then
        [(d, (enc.openReceived d.maxLength d.packet d.sender).2.map fun data => (data, d.sender))]
        else []) ++ heardOf B (enc.openReceived d.maxLength d.packet d.sender).1 ds := by
  unfold heardOf
  rw [replies_cons, List.zip_cons_cons, List.filter_cons]
  by_cases hB : d.sender = B
  · rw [if_pos hB, if_pos (decide_eq_true hB)]
    rfl
  · rw [if_neg hB, if_neg (by simpa using hB)]
    rfl

/-- The packets of an address with another hash, and of the direction that clients send in, can be left
out. -/
theorem heardOf_filter {A B : Address} (hhash : addressHash A ≠ addressHash B)
    {enc : EncryptedTransport σ} {enc' : EncryptedTransport τ}
    (h : Agree (· ≠ .client (addressHash A)) enc enc') (ds : List Delivery)
    (hdir : ∀ d ∈ ds, d.sender = A → directionOf (nonceIn d.packet) ≠ DIR_SERVER_TO_CLIENT) :
    heardOf B enc ds = heardOf B enc' (ds.filter fun d => d.sender ≠ A) := by
  induction ds generalizing enc enc' with
  | nil => rfl
  | cons d ds ih =>
    have hrest : ∀ d' ∈ ds, d'.sender = A → directionOf (nonceIn d'.packet) ≠ DIR_SERVER_TO_CLIENT :=
      fun d' hd' => hdir d' (List.mem_cons_of_mem _ hd')
    by_cases hA : d.sender = A
    · -- a packet of `A` uses the window of its hash, if any
      have hB : d.sender ≠ B := fun hB => hhash (by rw [← hA, hB])
      have hself := agree_openReceived_self (P := (· ≠ .client (addressHash A))) enc d.maxLength
        d.packet d.sender (by
          intro p hp
          unfold claimed at hp
          rw [if_neg (hdir d List.mem_cons_self hA), hA] at hp
          split_ifs at hp
          exact not_not.mpr (Option.some.inj hp).symm)
      rw [heardOf_cons, if_neg hB, List.nil_append, ih (hself.symm.trans h) hrest,
        List.filter_cons_of_neg (by simpa using hA)]
    · rw [List.filter_cons_of_pos (by simpa using hA), heardOf_cons, heardOf_cons]
      by_cases hclaim : claimed (directionOf (nonceIn d.packet)) d.sender = some (.client (addressHash A))
      · -- another address of the same hash, which is not `B`
        have hB : d.sender ≠ B := by
          rintro rfl
          unfold claimed at hclaim
          split_ifs at hclaim
          · exact hhash (Peer.client.inj (Option.some.inj hclaim)).symm
          · cases Option.some.inj hclaim
        have hskip : ∀ p, claimed (directionOf (nonceIn d.packet)) d.sender = some p →
            ¬p ≠ .client (addressHash A) := fun p hp =>
          not_not.mpr (Option.some.inj (hp.symm.trans hclaim))
        rw [if_neg hB, if_neg hB, ih (((agree_openReceived_self _ _ _ _ hskip).symm.trans h).trans
          (agree_openReceived_self _ _ _ _ hskip)) hrest]
      · obtain ⟨hout, hnext⟩ := h.openReceived d.maxLength d.packet d.sender
          fun p hp hpA => hclaim (hpA ▸ hp)
        rw [hout, ih hnext hrest]

/-! ### A packet that is delivered from one address too many -/

theorem differBy_twice (key : Bytes) (dest : Peer) (A B : Address) (reflected : Bool)
    (hdir : ((new () key).outboundKey dest).2 = DIR_SERVER_TO_CLIENT → reflected) :
    DifferBy A reflected (pops 0 2) (pops 0 1) (taking key 0 (twice (firstPacket key dest []) A B))
      (taking key 0 [(firstPacket key dest [], B)]) := by
  have hfirst := deliveries_taking key 0 (twice (firstPacket key dest []) A B) (by simp [twice, length_firstPacket])
  have hsecond := deliveries_taking key 0 [(firstPacket key dest [], B)] (by simp [length_firstPacket])
  refine ⟨rfl, ?_, fun d hd _ hbyte => hdir ?_⟩
  · rw [hfirst, hsecond]
    simp [twice]
  · have hpacket : d.packet = firstPacket key dest [] := by
      rw [hfirst, hsecond] at hd
      simp only [twice, List.map_cons, List.map_nil, List.cons_append, List.nil_append,
        List.mem_cons, List.not_mem_nil, or_false] at hd
      rcases hd with rfl | rfl | rfl <;> rfl
    rwa [hpacket, firstPacket, packet_eq, nonceIn_stamped] at hbyte

/-- When the two addresses share a window, the packet is heard from the second only alone. -/
theorem heard_twice_ne (key : Bytes) {dest : Peer} {A B : Address}
    (hface : facing dest B = facing dest A) :
    heard B (taking key 0 (twice (firstPacket key dest []) A B)) ≠
      heard B (taking key 0 [(firstPacket key dest [], B)]) := by
  have hroom : ∀ q ∈ twice (firstPacket key dest []) A B, q.1.length ≤ 0 + OVERHEAD := by
    simp [twice, length_firstPacket]
  have hroom' : ∀ q ∈ [(firstPacket key dest [], B)], q.1.length ≤ 0 + OVERHEAD := by
    simp [length_firstPacket]
  have hopen := openReceived_firstPacket dest B (Agree.refl (P := fun _ => True) (new () key)) trivial
    (show ([] : Bytes).length ≤ 0 from le_refl 0)
  rw [heard_eq_zip, heard_eq_zip, deliveries_taking key _ _ hroom, outputs_taking key _ _ hroom,
    deliveries_taking key _ _ hroom', outputs_taking key _ _ hroom']
  simp only [twice, List.map_cons, List.map_nil]
  rw [replies_twice key [] dest 0 (le_refl 0), if_pos hface, replies_cons]
  dsimp only
  rw [hopen]
  intro heq
  have hmem : ((⟨0, firstPacket key dest [], B⟩ : Delivery), (none : Option (Bytes × Address))) ∈
      (([⟨0, firstPacket key dest [], A⟩, ⟨0, firstPacket key dest [], B⟩] : List Delivery).zip
        [some (([] : Bytes), A), none]).filter fun x => x.1.sender = B := by
    simp
  rw [heq] at hmem
  simp at hmem

/-- Inserting or removing packets from `A` never changes what is accepted from `B`, nor the counters
used for `B`, if and only if the hashes of the two differ and no packet from `A` names the window of
the other direction. -/
theorem peers_isolated_iff (key : Bytes) (A B : Address) (reflected : Bool) :
    (∀ (σ τ : Type) (T : ITransport σ) (T' : ITransport τ) (inner : σ) (inner' : τ)
        (uses uses' : List Use),
      DifferBy A reflected uses uses' (arrivals T (new inner key) uses)
        (arrivals T' (new inner' key) uses') →
      heard B (arrivals T (new inner key) uses) = heard B (arrivals T' (new inner' key) uses') ∧
        countersTo T B (new inner key) uses = countersTo T' B (new inner' key) uses') ↔
      addressHash A ≠ addressHash B ∧ reflected = false := by
  constructor
  · intro h
    have hapart : ∀ dest, (((new () key).outboundKey dest).2 = DIR_SERVER_TO_CLIENT → reflected) →
        facing dest B ≠ facing dest A := fun dest hdir hface =>
      heard_twice_ne key hface (h _ _ _ _ _ _ _ _ (differBy_twice key dest A B reflected hdir)).1
    constructor
    · exact fun hhash => hapart .server (fun hdir => absurd (show DIR_CLIENT_TO_SERVER = DIR_SERVER_TO_CLIENT from hdir) (by decide))
        (congrArg Peer.client hhash.symm)
    · by_contra hreflected
      exact hapart (.client 0) (fun _ => eq_true_of_ne_false hreflected) rfl
  · rintro ⟨hhash, rfl⟩ σ τ T T' inner inner' uses uses' h
    have hagree : Agree (· ≠ .client (addressHash A)) (new inner key) (new inner' key) :=
      ⟨fun p => by cases p <;> rfl, fun p _ => by cases p <;> rfl⟩
    have hdir : ∀ d ∈ (arrivals T (new inner key) uses).map Arrival.delivery ++
        (arrivals T' (new inner' key) uses').map Arrival.delivery, d.sender = A →
        directionOf (nonceIn d.packet) ≠ DIR_SERVER_TO_CLIENT := fun d hd hA hbyte =>
      Bool.false_ne_true (h.direction d hd hA hbyte)
    constructor
    · rw [heard_eq, heard_eq, heardOf_filter hhash hagree _ fun d hd =>
          hdir d (List.mem_append_left _ hd), h.received]
      exact (heardOf_filter hhash (Agree.refl _) _ fun d hd =>
        hdir d (List.mem_append_right _ hd)).symm
    · rw [countersTo_eq, countersTo_eq, h.sent]
      rfl

def collidingAddr : Address := .ofIPv4 127 0 0 32 50000

def collidingAddr' : Address := .ofIPv4 127 0 1 1 50000

theorem colliding_not_isolated :
    collidingAddr ≠ collidingAddr' ∧
      DifferBy collidingAddr false (pops 0 2) (pops 0 1)
        (taking sharedKey 0 (twice (firstPacket sharedKey .server []) collidingAddr collidingAddr'))
        (taking sharedKey 0 [(firstPacket sharedKey .server [], collidingAddr')]) ∧
      heard collidingAddr'
          (taking sharedKey 0 (twice (firstPacket sharedKey .server []) collidingAddr collidingAddr')) ≠
        heard collidingAddr' (taking sharedKey 0 [(firstPacket sharedKey .server [], collidingAddr')]) :=
  ⟨by decide, differBy_twice _ _ _ _ _ (by decide), heard_twice_ne _ (by decide)⟩

end CampelloNet.Transport.EncryptedTransport
