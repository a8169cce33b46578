import CampelloNet.Transport.EncryptedReplay
import CampelloNet.Transport.EncryptedRun

/-!
# Which genuine packets are accepted

Packets that were sealed for one receiver and arrive from one address are accepted once each, and
those that are 64 or more behind the highest are not (`replayWindow_exact`). The window is that of the
sender's address hash, and the address is authenticated by nothing: a packet is accepted once for each
hash under which it finds a window open (`redelivered_once_iff`).
-/

namespace CampelloNet.Transport.EncryptedTransport

open Lib Crypto Encrypted

variable {σ τ : Type}

/-! ### Genuine packets -/

/-- The peer whose window is used by what was sealed for `dest` and arrives from `sender`. -/
def facing (dest : Peer) (sender : Address) : Peer :=
  match dest with
  | .server => .client (addressHash sender)
  | .client _ => .server

section
variable (enc : EncryptedTransport σ) (dest : Peer)

theorem claimed_outboundKey (sender : Address) :
    claimed (enc.outboundKey dest).2 sender = some (facing dest sender) := by
  cases dest <;> rfl

theorem inboundKey_facing (sender : Address) :
    enc.inboundKey (facing dest sender) = (enc.outboundKey dest).1 := by
  cases dest <;> rfl

/-- What `send` and `send_to` do: count, and hand on the packet. -/
theorem sendSealed_eq (data : Bytes) (transmit : Bytes → σ → σ × Bool) :
    enc.sendSealed dest data transmit =
      let counted := enc.setCounters dest
        { enc.counters dest with outbound := (enc.counters dest).outbound + 1 }
      let sent := transmit (packet (enc.outboundKey dest) (enc.counters dest).outbound data) counted.inner
      ({ counted with inner := sent.1 }, sent.2) := by
  unfold sendSealed nextSeal
  dsimp only
  rw [show data.length + TAG_SIZE = data.length + ChaCha20Poly1305.TAG_SIZE from rfl,
    ChaCha20Poly1305.sealed_eq]
  rfl

/-- A receiver with the sender's keys finds a packet authentic. -/
theorem authentic_packet {enc' : EncryptedTransport τ} {maxLength : Nat}
    (hkeys : ∀ p, enc'.inboundKey p = enc.inboundKey p) (sender : Address) (counter : UInt64) {data : Bytes}
    (hfits : data.length ≤ maxLength) :
    enc'.Authentic maxLength (packet (enc.outboundKey dest) counter data) sender (facing dest sender)
      data := by
  have hnonce : nonceIn (packet (enc.outboundKey dest) counter data) =
      nonceOf (enc.outboundKey dest).2 counter := nonceIn_stamped _ _ _
  refine ⟨?_, ?_, hfits⟩
  · rw [hnonce]
    exact claimed_outboundKey enc dest sender
  · rw [hkeys, inboundKey_facing, hnonce]
    rfl

theorem counterOf_packet (keyed : Key × UInt8) (counter : UInt64) (data : Bytes) :
    counterOf (nonceIn (packet keyed counter data)) = counter := by
  rw [packet_eq, nonceIn_stamped, counterOf_nonceOf]

end

namespace Arrival

/-- The packet was sealed for `dest` under the key, and its plaintext fits. -/
def Genuine (key : Bytes) (dest : Peer) (a : Arrival σ) : Prop :=
  ∃ counter data, a.packet = Encrypted.packet ((new () key).outboundKey dest) counter data ∧
    data.length ≤ a.maxLength

/-- The largest counter received, 0 at the start. -/
def highest (past : List (Arrival σ)) : ℕ := past.foldl (fun h a => max h a.counter.toNat) 0

/-- The counters of the accepted packets. -/
def taken (past : List (Arrival σ)) : Set ℕ := {n | ∃ b ∈ past, b.accepted ∧ b.counter.toNat = n}

theorem highest_snoc (past : List (Arrival σ)) (a : Arrival σ) :
    highest (past ++ [a]) = max (highest past) a.counter.toNat := by
  unfold highest
  rw [List.foldl_append]
  rfl

theorem taken_snoc (past : List (Arrival σ)) (a : Arrival σ) :
    taken (past ++ [a]) = if a.accepted then insert a.counter.toNat (taken past) else taken past := by
  ext n
  have hn : n ∈ taken (past ++ [a]) ↔ n ∈ taken past ∨ a.accepted ∧ a.counter.toNat = n := by
    unfold taken
    simp only [Set.mem_ofPred_eq, List.mem_append, List.mem_singleton, or_and_right, exists_or,
      exists_eq_left]
  rw [hn]
  split_ifs with hacc
  · rw [Set.mem_insert_iff]
    constructor
    · rintro (h | ⟨-, rfl⟩)
      · exact .inr h
      · exact .inl rfl
    · rintro (rfl | h)
      · exact .inr ⟨hacc, rfl⟩
      · exact .inl h
  · simp [hacc]

end Arrival

/-! ### One address -/

/-- A genuine packet finds an authentic one's key. -/
theorem Arrival.Genuine.authentic {key : Bytes} {dest : Peer} {a : Arrival σ} (h : a.Genuine key dest)
    (hkeys : ∀ p, a.before.inboundKey p = (new () key).inboundKey p) :
    ∃ data, a.before.Authentic a.maxLength a.packet a.sender (facing dest a.sender) data := by
  obtain ⟨counter, data, hpacket, hfits⟩ := h
  refine ⟨data, ?_⟩
  rw [hpacket]
  exact authentic_packet (new () key) dest hkeys a.sender counter hfits

/-- A genuine packet is accepted if and only if its window is open, and moves that window. -/
theorem Arrival.Genuine.spec {key : Bytes} {dest : Peer} {a : Arrival σ} (h : a.Genuine key dest)
    (hkeys : ∀ p, a.before.inboundKey p = (new () key).inboundKey p) (hsound : a.Sound) :
    (a.accepted ↔ (checkReplay (a.before.counters (facing dest a.sender)) a.counter).2 = true) ∧
      a.next.counters (facing dest a.sender) =
        (checkReplay (a.before.counters (facing dest a.sender)) a.counter).1 := by
  obtain ⟨data, hauth⟩ := h.authentic hkeys
  constructor
  · rw [hsound.accepted_iff]
    constructor
    · rintro ⟨peer, data', hauth', hopen⟩
      obtain rfl := Option.some.inj (hauth'.named.symm.trans hauth.named)
      exact hopen
    · exact fun hopen => ⟨_, data, hauth, hopen⟩
  · show (a.before.openReceived a.maxLength a.packet a.sender).1.counters _ = _
    rw [openReceived_of_addressed hauth.addressed]
    exact counters_setCounters_self _ _ _

/-- What a replay check of a counter that does not wrap leaves of a window that tracks the past. -/
theorem tracks_checkReplay {st : CounterState} {counter : UInt64} {taken : Set ℕ}
    (hcounter : counter.toNat < 2 ^ 64 - 64) (h : (window st).Tracks taken) :
    ((checkReplay st counter).2 = true ↔
        counter.toNat ∉ taken ∧ (window st).highest < counter.toNat + 64) ∧
      (window (checkReplay st counter).1).highest = max (window st).highest counter.toNat ∧
      (window (checkReplay st counter).1).Tracks
        (if (checkReplay st counter).2 then insert counter.toNat taken else taken) := by
  have hold : counter + REPLAY_WINDOW ≤ st.highestInbound ↔
      counter.toNat + 64 ≤ (window st).highest := by
    rw [UInt64.le_iff_toNat_le, UInt64.toNat_add]
    change (counter.toNat + 64) % 2 ^ 64 ≤ st.highestInbound.toNat ↔
      counter.toNat + 64 ≤ st.highestInbound.toNat
    omega
  by_cases hopen : counter + REPLAY_WINDOW ≤ st.highestInbound
  · rw [checkReplay_of_old hopen]
    have := hold.mp hopen
    refine ⟨iff_of_false Bool.false_ne_true fun hacc => ?_, ?_, h⟩
    · omega
    · dsimp only
      omega
  · have hin : (window st).highest < counter.toNat + 64 := not_le.mp (mt hold.mpr hopen)
    obtain ⟨hwindow, hfresh⟩ := window_checkReplay hopen
    have hacc := h.mark_accepts hin
    rw [hwindow, hfresh]
    refine ⟨hacc.trans (and_iff_left hin).symm, SlidingWindow.mark_highest, ?_⟩
    split_ifs with hmark
    · exact h.mark
    · -- a counter that was taken before changes nothing
      have hmem : counter.toNat ∈ taken := not_not.mp (mt hacc.mpr hmark)
      have := h.mark (n := counter.toNat)
      rwa [Set.insert_eq_of_mem hmem] at this

/-- A transport that receives genuine packets from one address accepts a packet if and only if it
accepted none with its counter before, and its counter is less than 64 below the largest. -/
theorem replayWindow_exact (T : ITransport σ) (inner : σ) (key : Bytes) (uses : List Use)
    (dest : Peer) (sender : Address)
    (hgenuine : ∀ a ∈ arrivals T (new inner key) uses,
      a.sender = sender ∧ a.Genuine key dest ∧ a.counter.toNat < 2 ^ 64 - 64)
    (before : List (Arrival σ)) (a : Arrival σ) (after : List (Arrival σ))
    (h : arrivals T (new inner key) uses = before ++ a :: after) :
    a.accepted ↔ (∀ b ∈ before, b.accepted → b.counter ≠ a.counter) ∧
      Arrival.highest before < a.counter.toNat + 64 := by
  have hkeys : ∀ b ∈ arrivals T (new inner key) uses, ∀ p,
      b.before.inboundKey p = (new () key).inboundKey p := by
    intro b hb p
    rw [(arrivals_keys hb).2]
    cases p <;> rfl
  have hmem : a ∈ arrivals T (new inner key) uses := h ▸ List.mem_append_right _ List.mem_cons_self
  have hstart : (window ((new inner key).counters (facing dest sender))).Tracks
        (Arrival.taken ([] : List (Arrival σ))) ∧
      (window ((new inner key).counters (facing dest sender))).highest =
        Arrival.highest ([] : List (Arrival σ)) := by
    have hzero : ((new inner key).counters (facing dest sender)) = {} := by
      cases dest <;> rfl
    have hnone : Arrival.taken ([] : List (Arrival σ)) = ∅ := by
      unfold Arrival.taken
      simp
    rw [hzero, hnone]
    exact ⟨SlidingWindow.tracks_empty, rfl⟩
  -- the window of the sender tracks what was accepted
  have hrun := arrivals_rule (T := T) (I := fun past e =>
      (window (e.counters (facing dest sender))).Tracks (Arrival.taken past) ∧
      (window (e.counters (facing dest sender))).highest = Arrival.highest past)
    (Q := fun b => b ∈ arrivals T (new inner key) uses) (fun past e e' hagree hI => by
      rwa [← hagree.windows _ trivial])
    (fun past b hsound hb hI => by
      obtain ⟨rfl, hgen, hcounter⟩ := hgenuine b hb
      obtain ⟨hacc, hnext⟩ := hgen.spec (hkeys b hb) hsound
      obtain ⟨-, hhigh, htracks⟩ := tracks_checkReplay hcounter hI.1
      rw [hnext, hhigh, Arrival.highest_snoc, hI.2, Arrival.taken_snoc]
      simp only [← hacc] at htracks
      exact ⟨htracks, rfl⟩)
    (fun b hb => hb) [] hstart h
  obtain ⟨hsound, htracks, hhighest⟩ := hrun
  obtain ⟨hsender, hgen, hcounter⟩ := hgenuine a hmem
  rw [List.nil_append] at htracks hhighest
  rw [(hgen.spec (hkeys a hmem) hsound).1, hsender, (tracks_checkReplay hcounter htracks).1, hhighest]
  refine and_congr_left fun _ => ?_
  unfold Arrival.taken
  constructor
  · intro hnot b hb hbacc heq
    exact hnot ⟨b, hb, hbacc, by rw [heq]⟩
  · rintro hall ⟨b, hb, hbacc, heq⟩
    exact hall b hb hbacc (UInt64.toNat_inj.mp heq)

/-! ### Two copies of a packet -/

/-- The first packet that is sealed for `dest` under a key. -/
def firstPacket (key : Bytes) (dest : Peer) (data : Bytes) : Bytes :=
  packet ((new () key).outboundKey dest) 0 data

theorem length_firstPacket (key : Bytes) (dest : Peer) (data : Bytes) :
    (firstPacket key dest data).length = data.length + OVERHEAD := length_stamped _ _ _

theorem firstPacket_delivered {key data : Bytes} {dest : Peer} {a : Arrival σ} {maxLength : Nat}
    {sender : Address} (h : a.delivery = ⟨maxLength, firstPacket key dest data, sender⟩)
    (hfits : data.length ≤ maxLength) :
    a.sender = sender ∧ a.Genuine key dest ∧ a.counter = 0 := by
  have hpacket : a.packet = firstPacket key dest data := congrArg Delivery.packet h
  have hlength : a.maxLength = maxLength := congrArg Delivery.maxLength h
  refine ⟨congrArg Delivery.sender h, ⟨0, data, hpacket, hlength ▸ hfits⟩, ?_⟩
  unfold Arrival.counter
  rw [hpacket]
  exact counterOf_packet _ _ _

/-- The first packet is accepted where none was received before. -/
theorem openReceived_firstPacket {enc : EncryptedTransport σ} {key data : Bytes} (dest : Peer)
    {maxLength : Nat} (sender : Address) {P : Peer → Prop} (hfresh : Agree P enc (new () key)) (hP : P (facing dest sender))
    (hfits : data.length ≤ maxLength) :
    (enc.openReceived maxLength (firstPacket key dest data) sender).2 = some data := by
  refine openReceived_eq_some_iff.mpr
    ⟨_, authentic_packet (new () key) dest hfresh.keys sender 0 hfits, ?_⟩
  have hwindow : window (enc.counters (facing dest sender)) = window {} := by
    rw [hfresh.windows _ hP]
    cases dest <;> rfl
  unfold OpenTo
  rw [firstPacket, counterOf_packet, (checkReplay_congr 0 hwindow).1]
  decide

/-- A packet is refused by a window in which its counter is spent. -/
theorem openReceived_spent {enc : EncryptedTransport σ} {key data : Bytes} {dest : Peer}
    {counter : UInt64} {maxLength : Nat} {sender : Address}
    (hspent : (window (enc.counters (facing dest sender))).Spent counter.toNat) :
    (enc.openReceived maxLength (packet ((new () key).outboundKey dest) counter data) sender).2 =
      none := by
  rw [Option.eq_none_iff_forall_ne_some]
  intro data' hsome
  obtain ⟨peer, hauth, hopen⟩ := openReceived_eq_some_iff.mp hsome
  have hnamed := hauth.named
  rw [packet_eq, nonceIn_stamped] at hnamed
  obtain rfl := Option.some.inj ((claimed_outboundKey (new () key) dest sender).symm.trans hnamed)
  unfold OpenTo at hopen
  rw [counterOf_packet, checkReplay_of_spent hspent] at hopen
  cases hopen

/-- The packet that comes first opens the window of its peer only. -/
theorem replies_twice (key data : Bytes) (dest : Peer) (maxLength : Nat)
    (hfits : data.length ≤ maxLength) (sender sender' : Address) :
    replies (new () key) [⟨maxLength, firstPacket key dest data, sender⟩,
        ⟨maxLength, firstPacket key dest data, sender'⟩] =
      [some (data, sender),
        if facing dest sender' = facing dest sender then none else some (data, sender')] := by
  have hfirst := openReceived_firstPacket dest sender
    (Agree.refl (P := fun _ => True) (new () key)) trivial hfits
  have hagree : Agree (· ≠ facing dest sender)
      ((new () key).openReceived maxLength (firstPacket key dest data) sender).1 (new () key) := by
    refine (agree_openReceived_self _ _ _ _ fun p hp => not_not.mpr ?_).symm
    rw [firstPacket, packet_eq, nonceIn_stamped] at hp
    exact Option.some.inj (hp.symm.trans (claimed_outboundKey (new () key) dest sender))
  rw [replies_cons, replies_cons, hfirst]
  have hsecond : (((new () key).openReceived maxLength (firstPacket key dest data)
      sender).1.openReceived maxLength (firstPacket key dest data) sender').2 =
      if facing dest sender' = facing dest sender then none else some data := by
    split_ifs with hsame
    · refine openReceived_spent (hsame ▸ ?_)
      have haddr := (authentic_packet (new () key) dest
        (fun _ => rfl) sender 0 hfits).addressed
      rw [firstPacket, openReceived_of_addressed haddr, counters_setCounters_self, counterOf_packet]
      refine spent_of_fresh ?_
      rw [show (new () key).counters (facing dest sender) = {} by cases dest <;> rfl]
      decide
    · exact openReceived_firstPacket dest sender' hagree hsame hfits
  dsimp only
  rw [hsecond]
  split_ifs <;> rfl

/-- One packet, from two senders. -/
def twice (packet : Bytes) (sender sender' : Address) : List (Bytes × Address) :=
  [(packet, sender), (packet, sender')]

/-- What a server makes of a packet that it takes twice. -/
theorem taking_twice (key : Bytes) {data : Bytes} (dest : Peer) {maxLength : Nat}
    (hfits : data.length ≤ maxLength) (sender sender' : Address) :
    ∃ a b, taking key maxLength (twice (firstPacket key dest data) sender sender') = [a, b] ∧
      a.delivery = ⟨maxLength, firstPacket key dest data, sender⟩ ∧
      b.delivery = ⟨maxLength, firstPacket key dest data, sender'⟩ ∧
      a.output = some (data, sender) ∧
      b.output =
        if facing dest sender' = facing dest sender then none else some (data, sender') := by
  have hroom : ∀ q ∈ twice (firstPacket key dest data) sender sender',
      q.1.length ≤ maxLength + OVERHEAD := by
    simp [twice, length_firstPacket, hfits]
  have hdeliveries := deliveries_taking key _ _ hroom
  have houtputs := outputs_taking key _ _ hroom
  obtain ⟨a, as, hab, ha, has⟩ := List.map_eq_cons_iff.mp hdeliveries
  obtain ⟨b, bs, rfl, hb, hbs⟩ := List.map_eq_cons_iff.mp has
  obtain rfl := List.map_eq_nil_iff.mp hbs
  rw [hab] at houtputs
  obtain ⟨hout, hrest⟩ := List.cons.inj
    (houtputs.trans (replies_twice key data dest maxLength hfits sender sender'))
  exact ⟨a, b, hab, ha, hb, hout, (List.cons.inj hrest).1⟩

open LoopbackHub in
/-- Of two copies of a packet the first is accepted and the second is not. -/
theorem replayWindow_exact_twice :
    ∃ a b, taking sharedKey 1 (twice (firstPacket sharedKey .server [1]) clientAddr clientAddr) = [a, b] ∧
      a.accepted ∧ ¬b.accepted := by
  obtain ⟨a, b, hab, ha, hb, -⟩ := taking_twice sharedKey .server (show [1].length ≤ 1 from le_refl 1)
    clientAddr clientAddr
  obtain ⟨hsender, hgen, hcounter⟩ := firstPacket_delivered ha (le_refl 1)
  obtain ⟨hsender', hgen', hcounter'⟩ := firstPacket_delivered hb (le_refl 1)
  have hgenuine : ∀ c ∈ taking sharedKey 1 (twice (firstPacket sharedKey .server [1]) clientAddr clientAddr),
      c.sender = clientAddr ∧ c.Genuine sharedKey .server ∧ c.counter.toNat < 2 ^ 64 - 64 := by
    rw [hab]
    simp [hsender, hgen, hcounter, hsender', hgen', hcounter']
  have hfirst := replayWindow_exact _ _ _ _ _ _ hgenuine [] a [b] hab
  have hsecond := replayWindow_exact _ _ _ _ _ _ hgenuine [a] b [] hab
  have hacc : a.accepted = true := by
    refine hfirst.mpr ⟨by simp, ?_⟩
    rw [hcounter]
    decide
  refine ⟨a, b, hab, hacc, fun hacc' => ?_⟩
  exact (hsecond.mp hacc').1 a List.mem_cons_self hacc (by rw [hcounter, hcounter'])

/-! ### Many addresses -/

/-- The packet fits and finds the window of its sender's hash open. -/
structure Arrival.FindsOpen (key : Bytes) (counter : UInt64) (data : Bytes) (a : Arrival σ) :
    Prop where
  same : a.packet = Encrypted.packet ((new () key).outboundKey .server) counter data
  fits : data.length ≤ a.maxLength
  open' : (checkReplay (a.before.perAddress (addressHash a.sender)) counter).2 = true

/-- No packet makes a spent counter usable again. -/
theorem spent_openReceived {enc : EncryptedTransport σ} {p : Peer} {n : ℕ} (maxLength : Nat)
    (received : Bytes) (sender : Address) (h : (window (enc.counters p)).Spent n) :
    (window ((enc.openReceived maxLength received sender).1.counters p)).Spent n := by
  rcases openReceived_cases enc maxLength received sender with hnone | ⟨key, peer, haddr⟩
  · rwa [hnone]
  · rw [openReceived_of_addressed haddr]
    by_cases hp : p = peer
    · subst hp
      rw [counters_setCounters_self]
      exact spent_checkReplay h
    · rwa [counters_setCounters_ne _ _ _ hp]

/-- Where an element satisfies a predicate that an earlier one satisfies too. -/
theorem exists_earlier {α : Type} {p : α → Bool} {l : List α} (h : 1 < l.countP p) :
    ∃ before a after, l = before ++ a :: after ∧ p a ∧ ∃ b ∈ before, p b := by
  induction l with
  | nil => simp at h
  | cons x l ih =>
    by_cases hx : p x = true
    · rw [List.countP_cons_of_pos hx] at h
      obtain ⟨a, ha, hpa⟩ := List.countP_pos_iff.mp (show 0 < l.countP p by omega)
      obtain ⟨before, after, rfl⟩ := List.append_of_mem ha
      exact ⟨x :: before, a, after, rfl, hpa, x, List.mem_cons_self, hx⟩
    · rw [List.countP_cons_of_neg hx] at h
      obtain ⟨before, a, after, rfl, hpa, b, hb, hpb⟩ := ih h
      exact ⟨x :: before, a, after, rfl, hpa, b, List.mem_cons_of_mem _ hb, hpb⟩

theorem one_lt_countP {α : Type} {p : α → Bool} {l : List α} {a b : α} (ha : a ∈ l) (hb : b ∈ l)
    (hne : a ≠ b) (hpa : p a) (hpb : p b) : 1 < l.countP p := by
  have hmem : a ∈ l.filter p ∧ b ∈ l.filter p :=
    ⟨List.mem_filter.mpr ⟨ha, hpa⟩, List.mem_filter.mpr ⟨hb, hpb⟩⟩
  rw [List.countP_eq_length_filter]
  by_contra hle
  rcases hfilter : l.filter p with _ | ⟨x, xs⟩
  · rw [hfilter] at hmem
    exact List.not_mem_nil hmem.1
  · rw [hfilter, List.length_cons] at hle
    obtain rfl := List.length_eq_zero_iff.mp (show xs.length = 0 by omega)
    rw [hfilter, List.mem_singleton, List.mem_singleton] at hmem
    exact hne (hmem.1.trans hmem.2.symm)

section
variable {T : ITransport σ} {inner : σ} {key : Bytes} {uses : List Use}

theorem keys_of_mem {a : Arrival σ} (ha : a ∈ arrivals T (new inner key) uses) :
    a.Sound ∧ ∀ p, a.before.inboundKey p = (new () key).inboundKey p := by
  obtain ⟨hsound, hkeys⟩ := arrivals_keys ha
  refine ⟨hsound, fun p => ?_⟩
  rw [hkeys]
  cases p <;> rfl

/-- When a client's packet is accepted. -/
theorem accepted_iff_findsOpen {counter : UInt64} {data : Bytes} {a : Arrival σ}
    (ha : a ∈ arrivals T (new inner key) uses) :
    a.packet = packet ((new () key).outboundKey .server) counter data ∧ a.accepted ↔
      a.FindsOpen key counter data := by
  obtain ⟨hsound, hkeys⟩ := keys_of_mem ha
  have hspec : ∀ hfits : data.length ≤ a.maxLength,
      a.packet = packet ((new () key).outboundKey .server) counter data →
      (a.accepted ↔ (checkReplay (a.before.perAddress (addressHash a.sender)) counter).2 = true) := by
    intro hfits hpacket
    have hcounter : a.counter = counter := by
      unfold Arrival.counter
      rw [hpacket, counterOf_packet]
    have hgen : a.Genuine key .server := ⟨counter, data, hpacket, hfits⟩
    rw [(hgen.spec hkeys hsound).1, hcounter]
    rfl
  constructor
  · rintro ⟨hpacket, hacc⟩
    have hfits : data.length ≤ a.maxLength := by
      obtain ⟨peer, data', hauth, -⟩ := hsound.accepted_iff.mp hacc
      have hlen := congrArg List.length hauth.sealed
      rw [hpacket, packet_eq, length_stamped, length_stamped] at hlen
      have := hauth.fits
      omega
    exact ⟨hpacket, hfits, (hspec hfits hpacket).mp hacc⟩
  · rintro ⟨hpacket, hfits, hopen⟩
    exact ⟨hpacket, (hspec hfits hpacket).mpr hopen⟩

/-- A packet that was accepted once is refused wherever it arrives under the same hash. -/
theorem findsOpen_once {counter : UInt64} {data : Bytes} {before : List (Arrival σ)}
    {a b : Arrival σ} {after : List (Arrival σ)}
    (h : arrivals T (new inner key) uses = before ++ a :: after) (hb : b ∈ before)
    (hopen : b.FindsOpen key counter data)
    (hsame : addressHash b.sender = addressHash a.sender) : ¬a.FindsOpen key counter data := by
  have hrun := (arrivals_rule (T := T) (I := fun past e => ∀ c ∈ past, c.FindsOpen key counter data →
      (window (e.counters (.client (addressHash c.sender)))).Spent counter.toNat)
    (Q := fun c => c ∈ arrivals T (new inner key) uses)
    (fun past e e' hagree hI c hc hfinds => by
      rw [← hagree.windows _ trivial]
      exact hI c hc hfinds)
    (fun past c _ hc hI d hd hfinds => by
      rcases List.mem_append.mp hd with hd | hd
      · exact spent_openReceived _ _ _ (hI d hd hfinds)
      · obtain rfl := List.mem_singleton.mp hd
        obtain ⟨hsound, hkeys⟩ := keys_of_mem hc
        have hgen : d.Genuine key .server := ⟨counter, data, hfinds.same, hfinds.fits⟩
        have hcounter : d.counter = counter := by
          unfold Arrival.counter
          rw [hfinds.same, counterOf_packet]
        have hnext := (hgen.spec hkeys hsound).2
        rw [hcounter] at hnext
        show (window (d.next.counters (facing .server d.sender))).Spent counter.toNat
        rw [hnext]
        exact spent_of_fresh hfinds.open')
    (fun c hc => hc) [] (fun c hc => absurd hc List.not_mem_nil) h).2
  intro hagain
  have hspent := hrun b (List.mem_append_right _ hb) hopen
  rw [hsame] at hspent
  have hclosed := checkReplay_of_spent hspent
  rw [show a.before.counters (.client (addressHash a.sender)) =
    a.before.perAddress (addressHash a.sender) from rfl, hagain.open'] at hclosed
  cases hclosed

end

/-- A client's packet is accepted at most once in a run if and only if the deliveries that fit and find
a window open are all from addresses of one hash. -/
theorem redelivered_once_iff (T : ITransport σ) (inner : σ) (key : Bytes) (uses : List Use)
    (counter : UInt64) (data : Bytes) :
    (arrivals T (new inner key) uses).countP (fun a =>
        a.packet = packet ((new () key).outboundKey .server) counter data ∧ a.accepted) ≤ 1 ↔
      ∀ a ∈ arrivals T (new inner key) uses, ∀ b ∈ arrivals T (new inner key) uses,
        a.FindsOpen key counter data → b.FindsOpen key counter data →
          addressHash a.sender = addressHash b.sender := by
  constructor
  · intro hcount a ha b hb hopen hopen'
    by_contra hne
    refine absurd (one_lt_countP ha hb (fun heq => hne (by rw [heq])) ?_ ?_) (not_lt.mpr hcount)
    · exact decide_eq_true ((accepted_iff_findsOpen ha).mpr hopen)
    · exact decide_eq_true ((accepted_iff_findsOpen hb).mpr hopen')
  · intro hall
    by_contra hcount
    obtain ⟨before, a, after, h, hpa, b, hb, hpb⟩ := exists_earlier (not_le.mp hcount)
    have ha : a ∈ arrivals T (new inner key) uses := h ▸ List.mem_append_right _ List.mem_cons_self
    have hb' : b ∈ arrivals T (new inner key) uses := h ▸ List.mem_append_left _ hb
    have hopen := (accepted_iff_findsOpen ha).mp (of_decide_eq_true hpa)
    have hopen' := (accepted_iff_findsOpen hb').mp (of_decide_eq_true hpb)
    exact findsOpen_once h hb hopen' (hall b hb' a ha hopen' hopen) hopen

/-- Another address. -/
def otherAddr : Address := .ofIPv4 127 0 0 2 50000

open LoopbackHub in
/-- A client's packet is accepted from its address and again from another one. -/
theorem redelivered_twice :
    ¬(taking sharedKey 1 (twice (firstPacket sharedKey .server [1]) clientAddr otherAddr)).countP
      (fun a => a.packet = firstPacket sharedKey .server [1] ∧ a.accepted) ≤ 1 := by
  obtain ⟨a, b, hab, ha, hb, hout, hout'⟩ := taking_twice sharedKey .server
    (show [1].length ≤ 1 from le_refl 1) clientAddr otherAddr
  have hpacket : a.packet = firstPacket sharedKey .server [1] := congrArg Delivery.packet ha
  have hpacket' : b.packet = firstPacket sharedKey .server [1] := congrArg Delivery.packet hb
  rw [if_neg (by decide)] at hout'
  have hacc : a.accepted = true := by
    unfold Arrival.accepted
    rw [hout]
    rfl
  have hacc' : b.accepted = true := by
    unfold Arrival.accepted
    rw [hout']
    rfl
  rw [hab]
  simp [hpacket, hpacket', hacc, hacc']

end CampelloNet.Transport.EncryptedTransport
