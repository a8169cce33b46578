import CampelloNet.Transport.Udp.Provenance
import Mathlib.Data.Set.Operations

/-!
# Transports on a network

Any number of transports, and a network between them that loses, repeats, delays and reorders datagrams
but makes none up. All that is stored or on its way are messages that a transport was given for where it
is, or pieces of them (`Genuine.step`), and so is all that is ever handed out (`popped_whole`).
-/

namespace CampelloNet.Transport.Udp

open Lib

/-! ### Calls -/

/-- A call with the datagrams that it hands to the network. -/
def callOut (P : Platform) (impl : Impl) : Call → Option (Impl × List Datagram)
  | .bind env opened => some ((bind env opened impl).1, (bind env opened impl).2.1)
  | .connect env opened address =>
    some ((connect env opened address impl).1, (connect env opened address impl).2.1)
  | .disconnect env => some (disconnect env impl)
  | .send env data r => some ((send env data r impl).1, (send env data r impl).2.1)
  | .sendWithPriority env address data r priority =>
    some ((sendWithPriority env address data r priority impl).1,
      (sendWithPriority env address data r priority impl).2.1)
  | .poll env t arrivals => poll P env t arrivals impl
  | .popReceive maxLength => some ((popReceive maxLength impl).1, [])
  | .setConnectionBandwidthLimit address n => some (setConnectionBandwidthLimit address n impl, [])
  | .setChannelBandwidthLimit address r n => some (setChannelBandwidthLimit address r n impl, [])

/-- The messages that a call is given, with where they are to go. -/
def messages (impl : Impl) : Call → List (Address × Bytes)
  | .send _ data _ => impl.targets.map fun a => (a, data)
  | .sendWithPriority _ address data _ _ => [(address, data)]
  | _ => []

/-- The datagrams that a call takes from the network. -/
def Call.arrivals : Call → List Arrival
  | .poll _ _ arrivals => arrivals
  | _ => []

section
variable {told heard : Address → Set Bytes} {known : Set Address} {impl : Impl} {P : Platform}

theorem Keeps.call (h : Keeps told heard known impl) {c : Call} {out : Impl × List Datagram}
    (hmessages : ∀ m ∈ messages impl c, m.2 ∈ told m.1)
    (harrivals : ∀ a ∈ c.arrivals, a.sender ∈ known → Backed (heard a.sender) a.bytes)
    (hout : callOut P impl c = some out) : Keeps told heard known out.1 ∧ AllBacked told out.2 := by
  have hnone : AllBacked told [] := fun d hd => by cases hd
  cases c with
  | bind env opened =>
    cases hout
    cases opened <;> exact ⟨keeps_nil rfl rfl rfl, allBacked_disconnect env impl⟩
  | connect env opened address =>
    cases hout
    cases opened with
    | false => exact ⟨keeps_nil rfl rfl rfl, allBacked_disconnect env impl⟩
    | true =>
      refine ⟨⟨fun conn hconn => ?_, ?_⟩, (allBacked_disconnect env impl).append fun d hd => ?_⟩
      · rw [List.mem_singleton.mp hconn]
        exact remembers_new address env.now
      · exact ⟨fun fa hfa => absurd hfa List.not_mem_nil, fun pkt hpkt => absurd hpkt List.not_mem_nil⟩
      · exact backed_control ⟨by decide, by decide⟩ hd
  | disconnect env =>
    cases hout
    exact ⟨keeps_nil rfl rfl rfl, allBacked_disconnect env impl⟩
  | send env data r =>
    cases hout
    exact h.send env (fun a ha => hmessages (a, data) (List.mem_map_of_mem ha)) r
  | sendWithPriority env address data r priority =>
    cases hout
    exact h.sendWithPriority env (hmessages (address, data) (List.mem_singleton_self _)) r priority
  | poll env t arrivals => exact h.poll harrivals hout
  | popReceive maxLength =>
    cases hout
    refine ⟨⟨?_, ?_⟩, hnone⟩
    · rw [popReceive_connections]
      exact h.connections
    · rw [popReceive]
      split
      · exact ⟨h.stores.assemblies, fun pkt hpkt => by cases hpkt⟩
      · exact h.stores.of_eq rfl rfl
  | setConnectionBandwidthLimit address n =>
    cases hout
    refine ⟨?_, hnone⟩
    rw [setConnectionBandwidthLimit]
    split
    · exact h
    · rename_i conn hfind
      exact h.putConnection (h.connections conn (lookup_mem hfind))
  | setChannelBandwidthLimit address r n =>
    cases hout
    refine ⟨?_, hnone⟩
    rw [setChannelBandwidthLimit]
    split
    · exact h
    · rename_i conn hfind
      have halike : Alike conn (conn.setChannel r.index
          { conn.channels r.index with bandwidthLimit := n }) := Alike.rfl.setChannel (by rfl)
      exact h.putConnection ((h.connections conn (lookup_mem hfind)).of_alike halike)

theorem Keeps.mono (h : Keeps told heard known impl) {told' heard' : Address → Set Bytes}
    (htold : ∀ a, told a ⊆ told' a) (hheard : ∀ a, heard a ⊆ heard' a) :
    Keeps told' heard' known impl := by
  have hassembled : ∀ a pieces, Assembled (heard a) pieces → Assembled (heard' a) pieces := by
    rintro a pieces ⟨⟨data, hdata, hfrag⟩, hpieces⟩
    exact ⟨⟨data, hheard a hdata, hfrag⟩,
      fun k piece hk => (hpieces k piece hk).imp_right fun hpiece => hpiece.mono (hheard a)⟩
  refine ⟨fun conn hconn => (h.connections conn hconn).mono (htold _), ?_, ?_⟩
  · exact fun fa hfa hknown => hassembled _ _ (h.stores.assemblies fa hfa hknown)
  · intro pkt hpkt hknown
    rcases h.stores.queue pkt hpkt hknown with hdata | ⟨pieces, hpieces, heq⟩
    · exact .inl (hheard _ hdata)
    · exact .inr ⟨pieces, hassembled _ _ hpieces, heq⟩

end

/-! ### Transports on a network -/

/-- Transports, every datagram that was handed to the network, with the address that it came from, and every
message that one of them was given, with who got it and where it is to go. -/
structure Hosts where
  impl : ℕ → Impl := fun _ => {}
  wire : List (Address × Datagram) := []
  told : List (ℕ × Address × Bytes) := []

namespace Hosts

variable (P : Platform) (addr : ℕ → Address)

/-- One of the transports makes a call. -/
def step (s : Hosts) (l : ℕ × Call) : Option Hosts :=
  (callOut P (s.impl l.1) l.2).map fun out =>
    { impl := Function.update s.impl l.1 out.1
      wire := s.wire ++ out.2.map fun d => (addr l.1, d)
      told := s.told ++ (messages (s.impl l.1) l.2).map fun m => (l.1, m) }

/-- The network makes nothing up: what arrives from the address of a transport was sent from there to
the address where it arrives. -/
def Faithful (s : Hosts) (l : ℕ × Call) : Prop :=
  ∀ a ∈ l.2.arrivals, a.sender ∈ Set.range addr → (a.sender, ⟨addr l.1, a.bytes⟩) ∈ s.wire

/-- What transport `i` was given for an address. -/
def toldBy (s : Hosts) (i : ℕ) (dest : Address) : Set Bytes := { data | (i, dest, data) ∈ s.told }

/-- What the transports with one address were given for another. -/
def toldFrom (s : Hosts) (dest source : Address) : Set Bytes :=
  { data | ∃ i, addr i = source ∧ (i, dest, data) ∈ s.told }

/-- Everything that is stored or on its way are messages and pieces of messages that were given for
where it is. -/
structure Genuine (s : Hosts) : Prop where
  keeps : ∀ i, Keeps (s.toldBy i) (s.toldFrom addr (addr i)) (Set.range addr) (s.impl i)
  wire : ∀ x ∈ s.wire, Backed (s.toldFrom addr x.2.dest x.1) x.2.bytes

variable {P addr} {s t : Hosts}

theorem Genuine.step (h : Genuine addr s) {l : ℕ × Call} (hfaithful : Faithful addr s l)
    (ht : step P addr s l = some t) : Genuine addr t := by
  obtain ⟨out, hout, rfl⟩ := Option.map_eq_some_iff.mp ht
  set t : Hosts := { impl := Function.update s.impl l.1 out.1
                     wire := s.wire ++ out.2.map fun d => (addr l.1, d)
                     told := s.told ++ (messages (s.impl l.1) l.2).map fun m => (l.1, m) } with heq
  have htold : ∀ i a, s.toldBy i a ⊆ t.toldBy i a := fun i a data hdata => List.mem_append_left _ hdata
  have hfrom : ∀ a b, s.toldFrom addr a b ⊆ t.toldFrom addr a b := by
    rintro a b data ⟨i, hi, hdata⟩
    exact ⟨i, hi, List.mem_append_left _ hdata⟩
  have hkeeps : ∀ i, Keeps (t.toldBy i) (t.toldFrom addr (addr i)) (Set.range addr) (s.impl i) :=
    fun i => (h.keeps i).mono (htold i) (hfrom _)
  have hmessages : ∀ m ∈ messages (s.impl l.1) l.2, m.2 ∈ t.toldBy l.1 m.1 := by
    intro m hm
    exact List.mem_append_right _ (List.mem_map.mpr ⟨m, hm, rfl⟩)
  have harrivals : ∀ a ∈ l.2.arrivals, a.sender ∈ Set.range addr →
      Backed (t.toldFrom addr (addr l.1) a.sender) a.bytes := by
    intro a ha hknown
    exact (h.wire _ (hfaithful a ha hknown)).mono (hfrom _ _)
  obtain ⟨hself, hds⟩ := (hkeeps l.1).call hmessages harrivals hout
  constructor
  · intro i
    by_cases hi : i = l.1
    · subst hi
      rw [show t.impl l.1 = out.1 from Function.update_self ..]
      exact hself
    · rw [show t.impl i = s.impl i from Function.update_of_ne hi ..]
      exact hkeeps i
  · intro x hx
    rcases List.mem_append.mp hx with hx | hx
    · exact (h.wire x hx).mono (hfrom _ _)
    · obtain ⟨d, hd, rfl⟩ := List.mem_map.mp hx
      refine (hds d hd).mono ?_
      exact fun data hdata => ⟨l.1, rfl, hdata⟩

theorem genuine_start : Genuine addr {} :=
  ⟨fun _ => keeps_nil rfl rfl rfl, fun x hx => by cases hx⟩

/-- Over a network that makes nothing up, whatever bytes a transport hands out as those of another one are, up
to the length of the buffer, a message that the other was given for it, or pieces of such messages, each
in its place. -/
theorem popped_whole {calls : List (ℕ × Call)} (h : Run.exec (step P addr) {} calls = some t)
    (hfaithful : Run.Admits (step P addr) (Faithful addr) {} calls) (i j maxLength : ℕ) (data : Bytes)
    (hpop : (popReceive maxLength (t.impl i)).2 = some (data, addr j)) :
    ∃ whole, data = whole.take maxLength ∧ Whole (t.toldFrom addr (addr i) (addr j)) whole := by
  have hgenuine : Genuine addr t :=
    (Run.of_exec calls h hfaithful).invariant genuine_start fun _ _ _ hs hok ht => hs.step hok ht
  unfold popReceive at hpop
  split at hpop
  · cases hpop
  · rename_i pkt hpkt
    obtain ⟨rfl, hsender⟩ := Prod.ext_iff.mp (Option.some.inj hpop)
    have hsender : pkt.sender = addr j := hsender
    have hwhole := (hgenuine.keeps i).stores.queue pkt (List.mem_of_getElem? hpkt) ⟨j, hsender.symm⟩
    rw [hsender] at hwhole
    exact ⟨pkt.data, rfl, hwhole⟩

open World in
/-- Transport 0 is a server on one machine, the others have the address of one client. -/
def twoAddresses (i : ℕ) : Address := if i = 0 then localAddr .left else localAddr .right

open World in
/-- A datagram that arrives from transport `i`. -/
def fromHost (i : ℕ) (bytes : Bytes) : Arrival := ⟨twoAddresses i, bytes, goodEnv 1⟩

/-- A client connects and sends a message of two fragments, which arrive the other way round. -/
def fragmentsSwapped : List (ℕ × Call) :=
  let fragment (k : ℕ) : Bytes := (fragmentHeader PacketReliability.unreliable.index {} 0 k 2
    (fragmentOf longMessage k).length).serialize ++ fragmentOf longMessage k
  let handshake : Bytes := (controlHeader .handshake 0 0).serialize ++ []
  [(0, .bind (World.goodEnv 1) true), (1, .connect (World.goodEnv 1) true (twoAddresses 0)),
    (0, .poll (World.goodEnv 1) 1 [fromHost 1 handshake]),
    (1, .poll (World.goodEnv 1) 1 [fromHost 0 handshake]),
    (1, .sendWithPriority (World.goodEnv 1) (twoAddresses 0) longMessage .unreliable 0),
    (0, .poll (World.goodEnv 1) 1 [fromHost 1 (fragment 1), fromHost 1 (fragment 0)])]

theorem popped_whole_swapped : ∃ t,
    Run.exec (step World.maskedShift twoAddresses) {} fragmentsSwapped = some t ∧
      (popReceive 4096 (t.impl 0)).2 = some (longMessage, twoAddresses 1) ∧
      ∃ whole, longMessage = whole.take 4096 ∧
        Whole (t.toldFrom twoAddresses (twoAddresses 0) (twoAddresses 1)) whole := by
  have hrun : (Run.exec (step World.maskedShift twoAddresses) {} fragmentsSwapped).map (fun t =>
      (popReceive 4096 (t.impl 0)).2) = some (some (longMessage, twoAddresses 1)) := by decide +kernel
  have hsent : Run.Admits (step World.maskedShift twoAddresses)
      (fun s l => ∀ a ∈ l.2.arrivals, (a.sender, ⟨twoAddresses l.1, a.bytes⟩) ∈ s.wire) {}
      fragmentsSwapped := by decide +kernel
  have hfaithful : Run.Admits (step World.maskedShift twoAddresses) (Faithful twoAddresses) {}
      fragmentsSwapped := hsent.mono fun _ _ h a ha _ => h a ha
  obtain ⟨t, ht, hpop⟩ := Option.map_eq_some_iff.mp hrun
  exact ⟨t, ht, hpop, popped_whole ht hfaithful 0 1 4096 longMessage hpop⟩

end Hosts

end CampelloNet.Transport.Udp
