import CampelloNet.Transport.Udp.ConnectionRun
import Mathlib.Data.Set.Basic

/-!
# Where the bytes of a message come from

What a connection sends are the messages that it was given, whole or in pieces (`backed_sendLog`,
`backed_resendPendingLog`), and it remembers no others (`remembers_sendToConnection`). What a transport queues
of a sender are messages that arrived from it, or pieces of them in their places (`Stores.processPayload`).
Each function of a transport keeps this (`Keeps`), whatever the network does with the datagrams.
-/

namespace CampelloNet.Transport.Udp

open Lib

/-! ### Pieces -/

/-- A message is sent in fragments. -/
def Fragmented (data : Bytes) : Prop := MAX_PAYLOAD_SIZE < data.length ∧ numFragments data ≤ 255

/-- Piece `k` of one of the messages. -/
def Piece (M : Set Bytes) (k : ℕ) (payload : Bytes) : Prop :=
  ∃ data ∈ M, Fragmented data ∧ payload = fragmentOf data k

/-- A payload is one of the messages, or the piece of one of them that its header tells. -/
def PartOf (M : Set Bytes) (hdr : PacketHeader) (payload : Bytes) : Prop :=
  if hdr.fragCount > 1 then Piece M (hdr.fragIndex.toNat - 1) payload else payload ∈ M

/-- A packet of these types has no payload. -/
def Control (hdr : PacketHeader) : Prop :=
  hdr.packetType = PacketType.handshake.toUInt8 ∨ hdr.packetType = PacketType.disconnect.toUInt8 ∨
    hdr.packetType = PacketType.ack.toUInt8

/-- What `poll` finds in these bytes is part of one of the messages. -/
def Backed (M : Set Bytes) (bytes : Bytes) : Prop :=
  ∀ p ∈ packet bytes, Control p.1 ∨ PartOf M p.1 p.2

section
variable {M M' : Set Bytes}

theorem Piece.mono (h : M ⊆ M') {k : ℕ} {payload : Bytes} (hp : Piece M k payload) :
    Piece M' k payload := by
  obtain ⟨data, hdata, hfrag, heq⟩ := hp
  exact ⟨data, h hdata, hfrag, heq⟩

theorem PartOf.mono (h : M ⊆ M') {hdr : PacketHeader} {payload : Bytes} (hp : PartOf M hdr payload) :
    PartOf M' hdr payload := by
  unfold PartOf at hp ⊢
  split_ifs at hp ⊢
  · exact hp.mono h
  · exact h hp

theorem Backed.mono (h : M ⊆ M') {bytes : Bytes} (hb : Backed M bytes) : Backed M' bytes :=
  fun p hp => (hb p hp).imp_right fun hpart => hpart.mono h

theorem partOf_userHeader {data : Bytes} (h : data ∈ M) (ch : Fin 4) (channel : Channel)
    (sequence : UInt16) (len : ℕ) : PartOf M (userHeader ch channel sequence len) data := by
  have hcount : (userHeader ch channel sequence len).fragCount = 0 := rfl
  unfold PartOf
  rw [hcount, if_neg (by decide)]
  exact h

theorem partOf_fragmentHeader {data : Bytes} (h : data ∈ M) (hfrag : Fragmented data) {i : ℕ}
    (hi : i < numFragments data) (ch : Fin 4) (channel : Channel) (sequence : UInt16) (len : ℕ) :
    PartOf M (fragmentHeader ch channel sequence i (numFragments data) len) (fragmentOf data i) := by
  obtain ⟨hlong, hmax⟩ := hfrag
  have hsize : UInt8.size = 256 := rfl
  have hmany : 1 < numFragments data := by
    unfold numFragments MAX_PAYLOAD_SIZE MAX_PACKET_SIZE PacketHeader.SIZE at *
    omega
  have hcount : (fragmentHeader ch channel sequence i (numFragments data) len).fragCount > 1 := by
    rw [gt_iff_lt, UInt8.lt_iff_toNat_lt]
    have heq : (UInt8.ofNat (numFragments data)).toNat = numFragments data :=
      UInt8.toNat_ofNat_of_lt' (by omega)
    exact heq.symm ▸ hmany
  have hindex : (fragmentHeader ch channel sequence i (numFragments data) len).fragIndex.toNat = i + 1 :=
    UInt8.toNat_ofNat_of_lt' (by omega)
  unfold PartOf
  rw [if_pos hcount, hindex]
  exact ⟨data, h, ⟨hlong, hmax⟩, rfl⟩

theorem backed_control {type : PacketType} (h : type ≠ .user ∧ type ≠ .fragment) {io : Io}
    {dest : Address} {ack : UInt16} {ackBits : UInt32} {d : Datagram}
    (hd : d ∈ (sendRaw io dest (controlHeader type ack ackBits) []).toList) : Backed M d.bytes := by
  obtain ⟨rfl, hlen⟩ := mem_toList_sendRaw hd
  intro p hp
  rw [packet_serialize_append _ hlen] at hp
  cases hp
  left
  cases type with
  | user => exact absurd rfl h.1
  | fragment => exact absurd rfl h.2
  | handshake => exact .inl rfl
  | disconnect => exact .inr (.inl rfl)
  | ack => exact .inr (.inr rfl)

/-- What `send_raw` makes of a part of a message. -/
theorem backed_sendRaw {io : Io} {dest : Address} {hdr : PacketHeader} {payload : Bytes} {d : Datagram}
    (hpart : PartOf M hdr payload) (h : sendRaw io dest hdr payload = some d) : Backed M d.bytes := by
  obtain ⟨rfl, hlen⟩ := sendRaw_eq_some h
  intro p hp
  rw [packet_serialize_append hdr hlen] at hp
  cases hp
  exact .inr hpart

end

/-! ### What a connection sends -/

/-- The packet that was handed to `send_raw` is part of one of the messages. -/
def Attempt.Backed (M : Set Bytes) (e : Attempt) : Prop := ∀ p ∈ e.packet, PartOf M p.1 p.2

/-- The pending entries are messages of the set, those marked as fragmented long ones. -/
def Remembers (M : Set Bytes) (pending : List Message) : Prop :=
  ∀ m ∈ pending, m.2.1 ∈ M ∧ (m.2.2 = true → Fragmented m.2.1)

section
variable {io : Io} {M : Set Bytes}

theorem backed_datagrams {log : List Attempt} (h : ∀ e ∈ log, e.Backed M) (dest : Address) :
    ∀ d ∈ log.filterMap (Attempt.datagram io dest), Backed M d.bytes := by
  intro d hd
  obtain ⟨e, he, hdatagram⟩ := List.mem_filterMap.mp hd
  obtain ⟨p, hp, hraw⟩ := Option.bind_eq_some_iff.mp hdatagram
  exact backed_sendRaw (h e he p hp) hraw

theorem backed_resetLog (conn : Connection) : ∀ e ∈ resetLog io conn, e.Backed M := by
  intro e he p hp
  unfold resetLog at he
  split_ifs at he
  · rw [List.mem_singleton.mp he] at hp
    cases hp
  · cases he

theorem backed_refused (i : ℕ) : (Attempt.refused i).Backed M := by
  intro p hp
  cases hp

theorem backed_first {hdr : PacketHeader} {payload : Bytes} (h : PartOf M hdr payload) :
    (Attempt.first hdr payload).Backed M := by
  intro p hp
  cases hp
  exact h

theorem backed_again {i : ℕ} {hdr : PacketHeader} {payload : Bytes} (h : PartOf M hdr payload) :
    (Attempt.again i hdr payload).Backed M := by
  intro p hp
  cases hp
  exact h

theorem backed_sendFragmentsLog {data : Bytes} (hdata : data ∈ M) (hfrag : Fragmented data)
    (r : PacketReliability) (base : UInt16) {is : List ℕ} (his : ∀ i ∈ is, i < numFragments data)
    (conn : Connection) : ∀ e ∈ sendFragmentsLog io r base data is conn, e.Backed M := by
  induction is generalizing conn with
  | nil => exact fun e he => by cases he
  | cons i is ih =>
    have hi := his i List.mem_cons_self
    have hrest := ih fun i' hi' => his i' (List.mem_cons_of_mem _ hi')
    have hreset : ∀ e ∈ (if r.isReliable then [] else resetLog io conn), e.Backed M := by
      split_ifs
      · exact fun e he => by cases he
      · exact backed_resetLog conn
    intro e he
    rw [sendFragmentsLog] at he
    rcases hcheck : (if r.isReliable then (conn, true)
        else checkAndConsumeBandwidth io conn r.index (PacketHeader.SIZE + MAX_PAYLOAD_SIZE))
      with ⟨conn₁, ok⟩
    rw [hcheck] at he
    dsimp only at he
    cases ok with
    | false =>
      rw [if_pos rfl] at he
      rcases List.mem_append.mp he with he | he
      · exact hreset e he
      · rw [List.mem_singleton.mp he]
        exact backed_refused i
    | true =>
      rw [if_neg (by decide)] at he
      rcases List.mem_append.mp he with he | he
      · exact hreset e he
      · rcases List.mem_cons.mp he with rfl | he
        · exact backed_first (partOf_fragmentHeader hdata hfrag hi _ _ _ _)
        · split at he
          · cases he
          · exact hrest _ e he

/-- What `send_to_connection` sends are parts of the message. -/
theorem backed_sendLog {data : Bytes} (hdata : data ∈ M) (conn : Connection) (r : PacketReliability)
    (priority : UInt8) : ∀ e ∈ sendLog io conn data r priority, e.Backed M := by
  intro e he
  rw [sendLog] at he
  by_cases hstate : conn.state ≠ .connected ∧ conn.state ≠ .connecting
  · rw [if_pos hstate] at he
    cases he
  rw [if_neg hstate] at he
  dsimp only at he
  by_cases hlen : data.length ≤ MAX_PAYLOAD_SIZE
  · rw [if_pos hlen] at he
    split_ifs at he with hrel hok
    · rw [List.mem_singleton.mp he]
      exact backed_first (partOf_userHeader hdata _ _ _ _)
    · rcases List.mem_append.mp he with he | he
      · exact backed_resetLog _ e he
      · rw [List.mem_singleton.mp he]
        exact backed_refused 0
    · rcases List.mem_append.mp he with he | he
      · exact backed_resetLog _ e he
      · rw [List.mem_singleton.mp he]
        exact backed_first (partOf_userHeader hdata _ _ _ _)
  · rw [if_neg hlen] at he
    by_cases hbig : numFragments data > 255
    · rw [if_pos hbig] at he
      cases he
    · rw [if_neg hbig] at he
      have hfrag : Fragmented data := ⟨not_le.mp hlen, not_lt.mp hbig⟩
      exact backed_sendFragmentsLog hdata hfrag r _ (fun i hi => List.mem_range.mp hi) _ e he

theorem backed_resendFragmentsLog {p : Pending} (hdata : p.data ∈ M) (hfrag : Fragmented p.data)
    (ch : Fin 4) {is : List ℕ} (his : ∀ i ∈ is, i < numFragments p.data) (conn : Connection) :
    ∀ e ∈ resendFragmentsLog io ch p is conn, e.Backed M := by
  induction is generalizing conn with
  | nil => exact fun e he => by cases he
  | cons i is ih =>
    have hi := his i List.mem_cons_self
    have hrest := ih fun i' hi' => his i' (List.mem_cons_of_mem _ hi')
    intro e he
    rw [resendFragmentsLog] at he
    rcases List.mem_append.mp he with he | he
    · exact backed_resetLog conn e he
    · split at he
      · rcases List.mem_cons.mp he with rfl | he
        · exact backed_refused i
        · exact hrest _ e he
      · rcases List.mem_cons.mp he with rfl | he
        · exact backed_again (partOf_fragmentHeader hdata hfrag hi _ _ _ _)
        · exact hrest _ e he

theorem backed_resendEntryLog {p : Pending} (h : Remembers M [p.message]) (ch : Fin 4)
    (conn : Connection) : ∀ e ∈ resendEntryLog io ch p conn, e.Backed M := by
  obtain ⟨hdata, hlong⟩ := h p.message (List.mem_singleton_self _)
  intro e he
  rw [resendEntryLog] at he
  split_ifs at he with hfrag
  · exact backed_resendFragmentsLog hdata (hlong hfrag) ch (fun i hi => List.mem_range.mp hi) conn e he
  · rcases List.mem_append.mp he with he | he
    · exact backed_resetLog conn e he
    · split at he
      · rw [List.mem_singleton.mp he]
        exact backed_refused 0
      · rw [List.mem_singleton.mp he]
        exact backed_again (partOf_userHeader hdata _ _ _ _)

theorem backed_resendChannelLog (t : Time) (ch : Fin 4) {ps : List Pending}
    (h : Remembers M (ps.map Pending.message)) (conn : Connection) :
    ∀ e ∈ resendChannelLog io t ch ps conn, e.Backed M := by
  induction ps generalizing conn with
  | nil => exact fun e he => by cases he
  | cons p ps ih =>
    have hrest := ih fun m hm => h m (List.mem_cons_of_mem _ hm)
    have hp : ∀ p' : Pending, p'.message = p.message → Remembers M [p'.message] := by
      intro p' heq m hm
      rw [List.mem_singleton.mp hm, heq]
      exact h p.message List.mem_cons_self
    intro e he
    rw [resendChannelLog] at he
    split_ifs at he with hdue
    · dsimp only at he
      split_ifs at he
      · cases he
      · rcases List.mem_append.mp he with he | he
        · exact backed_resendEntryLog (hp _ (by rfl)) ch conn e he
        · exact hrest _ e he
    · exact hrest conn e he

theorem backed_resendChannelsLog (t : Time) (chs : List (Fin 4)) {conn : Connection}
    (h : ∀ ch, Remembers M (conn.channels ch).view.pending) :
    ∀ e ∈ resendChannelsLog io t chs conn, e.Backed M := by
  induction chs generalizing conn with
  | nil => exact fun e he => by cases he
  | cons ch chs ih =>
    have hlog : ∀ e ∈ resendChannelLog io t ch (conn.channels ch).pending conn, e.Backed M :=
      backed_resendChannelLog t ch (h ch) conn
    obtain ⟨ha, hpending, -⟩ := resendChannel_spec io t ch (conn.channels ch).pending conn
    intro e he
    rw [resendChannelsLog] at he
    rcases hr : resendChannel io t ch (conn.channels ch).pending conn with ⟨conn₁, ps, out, stop⟩
    rw [hr] at ha hpending he
    dsimp only at ha hpending he
    have hview : Alike conn (conn₁.setChannel ch { conn₁.channels ch with pending := ps }) := by
      refine ha.setChannel ?_
      have hself := ha.view ch
      simp only [Channel.view, ChannelView.mk.injEq] at hself ⊢
      exact ⟨hself.1, hpending, hself.2.2⟩
    split_ifs at he
    · exact hlog e he
    · rcases List.mem_append.mp he with he | he
      · exact hlog e he
      · refine ih (fun c => ?_) e he
        rw [hview.view c]
        exact h c

/-- What `resend_pending` sends are parts of the pending messages. -/
theorem backed_resendPendingLog (t : Time) {conn : Connection}
    (h : ∀ ch, Remembers M (conn.channels ch).view.pending) :
    ∀ e ∈ resendPendingLog io t conn, e.Backed M :=
  backed_resendChannelsLog t _ h

/-! ### One connection -/

/-- What the connection would send again are messages of the set. -/
def Connection.Remembers (conn : Connection) (M : Set Bytes) : Prop :=
  ∀ ch, Udp.Remembers M (conn.channels ch).view.pending

theorem Remembers.subset {pending pending' : List Message} (h : Remembers M pending)
    (hsub : pending' ⊆ pending) : Remembers M pending' := fun m hm => h m (hsub hm)

theorem Connection.Remembers.mono {conn : Connection} {M' : Set Bytes} (h : conn.Remembers M) (hM : M ⊆ M') :
    conn.Remembers M' := fun ch m hm => ⟨hM (h ch m hm).1, (h ch m hm).2⟩

theorem Connection.Remembers.of_alike {conn conn' : Connection} (h : conn.Remembers M)
    (ha : Alike conn conn') : conn'.Remembers M := by
  intro ch
  rw [ha.view ch]
  exact h ch

theorem remembers_new (address : Address) (now : Time) :
    ({ address := address, lastRecvTime := now } : Connection).Remembers M := by
  intro ch m hm
  cases hm

theorem remembers_sendToConnection {conn : Connection} (h : conn.Remembers M) {data : Bytes}
    (hdata : data ∈ M) (r : PacketReliability) (priority : UInt8) :
    (sendToConnection io conn data r priority).1.Remembers M := by
  by_cases hstate : conn.state = .disconnecting
  · rw [sendToConnection, if_pos (by rw [hstate]; decide)]
    exact h
  have hsent := sendToConnection_spec io data r priority hstate
  by_cases hsendable : Sendable data
  · intro ch
    by_cases hch : ch = r.index
    · rw [hch, hsent.self hsendable]
      unfold ChannelView.send
      dsimp only
      split_ifs
      · intro m hm
        rcases List.mem_append.mp hm with hm | hm
        · exact h r.index m hm
        · rw [List.mem_singleton.mp hm]
          refine ⟨hdata, fun hlong => ?_⟩
          have hlong : MAX_PAYLOAD_SIZE < data.length := of_decide_eq_true hlong
          exact ⟨hlong, hsendable.resolve_left (not_le.mpr hlong)⟩
      · exact h r.index
    · rw [hsent.other ch hch]
      exact h ch
  · -- a message that is too long leaves the connection as it is
    have hlong := not_or.mp hsendable
    have hopen : ¬(conn.state ≠ .connected ∧ conn.state ≠ .connecting) := by
      rintro ⟨hc, hc'⟩
      cases hs : conn.state <;> simp_all
    rw [sendToConnection, if_neg hopen]
    dsimp only
    rw [if_neg hlong.1, if_pos (not_le.mp hlong.2)]
    exact h

theorem processAcks_pending_subset (now : Time) (conn : Connection) (ch c : Fin 4) (ack : UInt16)
    (ackBits : UInt32) :
    ((processAcks now conn ch ack ackBits).channels c).view.pending ⊆ (conn.channels c).view.pending := by
  by_cases hc : c = ch
  · by_cases hrel : (PacketReliability.ofIndex ch).isReliable = true
    · rw [hc, processAcks_view_self now conn ack ackBits hrel]
      exact List.filter_subset_self _
    · rw [processAcks, if_pos (by simpa using hrel)]
      exact List.Subset.refl _
  · rw [processAcks_channels_ne now conn ack ackBits hc]
    exact List.Subset.refl _

theorem remembers_receiveOn {env : Env} {conn : Connection} (h : conn.Remembers M) (hdr : PacketHeader)
    (payload : Bytes) : (receiveOn env conn hdr payload).Remembers M := by
  have hacked : (processAcks env.now { conn with lastRecvTime := env.now } hdr.channel hdr.ack
      hdr.ackBits).Remembers M := by
    intro ch
    exact (h ch).subset (processAcks_pending_subset _ _ _ _ _ _)
  unfold receiveOn
  split_ifs
  · exact h
  · dsimp only
    split_ifs <;> exact hacked
  · exact hacked
  · exact hacked
  · intro ch
    rw [Connection.channels_setChannel]
    split_ifs with hch
    · rw [(acceptPacket_eq _ hdr payload).1]
      exact hacked hdr.channel
    · exact hacked ch

/-- What a poll makes a connection send. -/
theorem backed_serviceConnection {t : Time} {conn : Connection} (h : conn.Remembers M) :
    ∀ d ∈ (serviceConnection io t conn).2, Backed M d.bytes := by
  have hresend : ∀ d ∈ (resendPending io t conn).2, Backed M d.bytes := by
    rw [resendPending_datagrams]
    exact backed_datagrams (backed_resendPendingLog t h) conn.address
  intro d hd
  rw [serviceConnection] at hd
  split_ifs at hd
  · rcases hr : resendPending io t conn with ⟨conn₁, ds⟩
    rw [hr] at hd hresend
    dsimp only at hd hresend
    split_ifs at hd
    · rcases List.mem_append.mp hd with hd | hd
      · exact hresend d hd
      · exact backed_control ⟨by decide, by decide⟩ hd
    · exact hresend d hd
  · cases hd

theorem backed_sendToConnection {conn : Connection} {data : Bytes} (hdata : data ∈ M)
    (r : PacketReliability) (priority : UInt8) :
    ∀ d ∈ (sendToConnection io conn data r priority).2.1, Backed M d.bytes := by
  rw [sendToConnection_datagrams]
  exact backed_datagrams (backed_sendLog hdata conn r priority) conn.address

end

/-! ### What a transport stores -/

/-- The pieces of an assembly are pieces of messages, each in its place, or still missing. -/
def Assembled (M : Set Bytes) (pieces : List Bytes) : Prop :=
  (∃ data ∈ M, Fragmented data) ∧ ∀ k, ∀ piece ∈ pieces[k]?, piece = [] ∨ Piece M k piece

/-- One of the messages, or what an assembly of pieces of them makes. -/
def Whole (M : Set Bytes) (data : Bytes) : Prop :=
  data ∈ M ∨ ∃ pieces, Assembled M pieces ∧ data = pieces.flatten

/-- What a transport holds of the known senders was heard from them. -/
structure Stores (heard : Address → Set Bytes) (known : Set Address) (impl : Impl) : Prop where
  assemblies : ∀ fa ∈ impl.fragmentAssemblies, fa.address ∈ known →
    Assembled (heard fa.address) fa.fragments
  queue : ∀ pkt ∈ impl.receiveQueue, pkt.sender ∈ known → Whole (heard pkt.sender) pkt.data

section
variable {heard : Address → Set Bytes} {known : Set Address} {impl impl' : Impl} {P : Platform}

theorem Stores.of_eq (h : Stores heard known impl)
    (hfa : impl'.fragmentAssemblies = impl.fragmentAssemblies)
    (hqueue : impl'.receiveQueue = impl.receiveQueue) : Stores heard known impl' := by
  constructor
  · rw [hfa]
    exact h.assemblies
  · rw [hqueue]
    exact h.queue

theorem Stores.putFragmentAssembly (h : Stores heard known impl) {fa : FragmentAssembly}
    (hfa : fa.address ∈ known → Assembled (heard fa.address) fa.fragments) :
    Stores heard known (putFragmentAssembly impl fa) := by
  refine ⟨fun fa' hfa' => ?_, h.queue⟩
  rcases mem_upsert hfa' with rfl | hmem
  · exact hfa
  · exact h.assemblies fa' hmem

theorem Stores.pushReceive (h : Stores heard known impl) {sender : Address} {data : Bytes}
    (hdata : sender ∈ known → Whole (heard sender) data) :
    Stores heard known (pushReceive impl sender data) := by
  refine ⟨h.assemblies, fun pkt hpkt => ?_⟩
  rcases List.mem_append.mp hpkt with hpkt | hpkt
  · exact h.queue pkt hpkt
  · rw [List.mem_singleton.mp hpkt]
    exact hdata

theorem Stores.filterAssemblies (h : Stores heard known impl) (keep : FragmentAssembly → Bool) :
    Stores heard known { impl with fragmentAssemblies := impl.fragmentAssemblies.filter keep } :=
  ⟨fun fa hfa => h.assemblies fa (List.mem_of_mem_filter hfa), h.queue⟩

/-- The assembly that a piece is put into. -/
theorem Stores.found (h : Stores heard known impl) (now : Time) {addr : Address} (sequence : UInt16)
    (fragCount : UInt8) {k : ℕ} {payload : Bytes} (hpiece : addr ∈ known → Piece (heard addr) k payload) :
    (findOrCreateFragmentAssembly impl now addr sequence fragCount).address = addr ∧
      (addr ∈ known → Assembled (heard addr)
        (findOrCreateFragmentAssembly impl now addr sequence fragCount).fragments) := by
  rw [findOrCreateFragmentAssembly]
  rcases hfind : lookup FragmentAssembly.key (addr, sequence) impl.fragmentAssemblies with _ | fa
  · refine ⟨rfl, fun hknown => ?_⟩
    obtain ⟨data, hdata, hfrag, -⟩ := hpiece hknown
    refine ⟨⟨data, hdata, hfrag⟩, fun k piece hpiece => .inl ?_⟩
    have hmem := List.mem_of_getElem? (Option.mem_def.mp hpiece)
    exact List.eq_of_mem_replicate hmem
  · have haddr : fa.address = addr := congrArg Prod.fst (lookup_key hfind)
    have hfa := h.assemblies fa (lookup_mem hfind)
    rw [haddr] at hfa
    exact ⟨haddr, hfa⟩

theorem Assembled.set {M : Set Bytes} {pieces : List Bytes} (h : Assembled M pieces) {i : ℕ} {payload : Bytes}
    (hpiece : Piece M i payload) : Assembled M (pieces.set i payload) := by
  refine ⟨h.1, fun k piece hk => ?_⟩
  by_cases hki : i = k
  · subst hki
    rw [List.getElem?_set_self'] at hk
    obtain ⟨_, -, rfl⟩ := Option.map_eq_some_iff.mp hk
    exact .inr hpiece
  · rw [List.getElem?_set_ne hki] at hk
    exact h.2 k piece hk

theorem Stores.processPayload (h : Stores heard known impl) {now : Time} {addr : Address}
    {hdr : PacketHeader} {payload : Bytes}
    (hpart : addr ∈ known → PartOf (heard addr) hdr payload)
    (hp : processPayload P now impl addr hdr payload = some impl') : Stores heard known impl' := by
  rw [Udp.processPayload] at hp
  by_cases hmany : hdr.fragCount > 1
  · have hpiece : addr ∈ known → Piece (heard addr) (hdr.fragIndex.toNat - 1) payload := by
      intro hknown
      have hpart := hpart hknown
      rwa [PartOf, if_pos hmany] at hpart
    obtain ⟨haddr, hfound⟩ := h.found now hdr.sequence hdr.fragCount hpiece
    rw [if_pos hmany] at hp
    dsimp only at hp
    generalize findOrCreateFragmentAssembly impl now addr hdr.sequence hdr.fragCount = fa at haddr hfound hp
    subst haddr
    have hset : fa.address ∈ known →
        Assembled (heard fa.address) (fa.fragments.set (hdr.fragIndex.toNat - 1) payload) :=
      fun hknown => (hfound hknown).set (hpiece hknown)
    split at hp
    · cases hp
    · split at hp
      · cases hp
      · cases hp
        exact h.putFragmentAssembly hfound
      · split at hp <;> cases hp
        · refine ((h.putFragmentAssembly ?_).pushReceive ?_).filterAssemblies _
          · exact hset
          · exact fun hknown => .inr ⟨_, hset hknown, rfl⟩
        · exact h.putFragmentAssembly hset
  · rw [if_neg hmany] at hp
    cases hp
    refine h.pushReceive fun hknown => ?_
    have hpart := hpart hknown
    rw [PartOf, if_neg hmany] at hpart
    exact .inl hpart

/-- What `process_packet` does to the queue and the assemblies is done by `process_payload`, and all that
it sends are handshakes. -/
theorem processPacket_stores {env : Env} {sender : Address} {hdr : PacketHeader} {payload : Bytes}
    {ds : List Datagram} (h : processPacket P env impl sender hdr payload = some (impl', ds)) :
    (∀ d ∈ ds, d ∈ sendHandshake (impl.io env) sender) ∧
    (impl'.fragmentAssemblies = impl.fragmentAssemblies ∧ impl'.receiveQueue = impl.receiveQueue ∨
      ¬Control hdr ∧ ∃ impl₁, impl₁.fragmentAssemblies = impl.fragmentAssemblies ∧
        impl₁.receiveQueue = impl.receiveQueue ∧
        Udp.processPayload P env.now impl₁ sender hdr payload = some impl') := by
  rw [processPacket] at h
  by_cases hid : hdr.protocolId ≠ PacketHeader.PROTOCOL_ID
  · rw [if_pos hid] at h
    cases h
    exact ⟨fun d hd => absurd hd List.not_mem_nil, .inl ⟨rfl, rfl⟩⟩
  rw [if_neg hid] at h
  dsimp only at h
  by_cases hhandshake : hdr.packetType = PacketType.handshake.toUInt8
  · rw [if_pos hhandshake] at h
    cases h
    exact ⟨fun d hd => hd, .inl ⟨rfl, rfl⟩⟩
  rw [if_neg hhandshake] at h
  by_cases hdisconnect : hdr.packetType = PacketType.disconnect.toUInt8
  · rw [if_pos hdisconnect] at h
    cases h
    exact ⟨fun d hd => absurd hd List.not_mem_nil, .inl ⟨rfl, rfl⟩⟩
  rw [if_neg hdisconnect] at h
  by_cases hack : hdr.packetType = PacketType.ack.toUInt8
  · rw [if_pos hack] at h
    cases h
    exact ⟨fun d hd => absurd hd List.not_mem_nil, .inl ⟨rfl, rfl⟩⟩
  rw [if_neg hack] at h
  have hdata : ¬Control hdr := by
    rintro (h | h | h)
    · exact hhandshake h
    · exact hdisconnect h
    · exact hack h
  split at h
  · obtain ⟨impl₁, hpayload, heq⟩ := Option.map_eq_some_iff.mp h
    cases heq
    exact ⟨fun d hd => absurd hd List.not_mem_nil, .inr ⟨hdata, Udp.putConnection impl _, rfl, rfl, hpayload⟩⟩
  · cases h
    exact ⟨fun d hd => absurd hd List.not_mem_nil, .inl ⟨rfl, rfl⟩⟩

end

/-! ### What a transport sends and stores -/

/-- What a transport holds: of the messages it was given to send, and of those it heard. -/
structure Keeps (told heard : Address → Set Bytes) (known : Set Address) (impl : Impl) : Prop where
  connections : ∀ conn ∈ impl.connections, conn.Remembers (told conn.address)
  stores : Stores heard known impl

/-- The datagrams are parts of the messages for where they go. -/
def AllBacked (told : Address → Set Bytes) (ds : List Datagram) : Prop :=
  ∀ d ∈ ds, Backed (told d.dest) d.bytes

section
variable {told heard : Address → Set Bytes} {known : Set Address} {impl impl' : Impl} {P : Platform}
  {ds : List Datagram}

theorem AllBacked.append {ds' : List Datagram} (h : AllBacked told ds) (h' : AllBacked told ds') :
    AllBacked told (ds ++ ds') := by
  intro d hd
  rcases List.mem_append.mp hd with hd | hd
  · exact h d hd
  · exact h' d hd

theorem Keeps.putConnection (h : Keeps told heard known impl) {conn : Connection}
    (hconn : conn.Remembers (told conn.address)) : Keeps told heard known (putConnection impl conn) := by
  refine ⟨fun conn' hconn' => ?_, h.stores.of_eq rfl rfl⟩
  rcases mem_upsert hconn' with rfl | hmem
  · exact hconn
  · exact h.connections conn' hmem

theorem Keeps.getOrCreate (h : Keeps told heard known impl) (now : Time) (address : Address) :
    (getOrCreateConnection impl now address).Remembers
      (told (getOrCreateConnection impl now address).address) := by
  rw [getOrCreateConnection, findConnection]
  cases hfind : lookup Connection.address address impl.connections with
  | none => exact remembers_new address now
  | some conn => exact h.connections conn (lookup_mem hfind)

theorem Keeps.receiveOne (h : Keeps told heard known impl) {a : Arrival}
    (ha : a.sender ∈ known → Backed (heard a.sender) a.bytes)
    (hout : receiveOne P impl a = some (impl', ds)) : Keeps told heard known impl' ∧ AllBacked told ds := by
  rw [receiveOne_eq] at hout
  split at hout
  · cases hout
    exact ⟨h, fun d hd => by cases hd⟩
  · rename_i hdr payload hpacket
    obtain ⟨hds, hstores⟩ := processPacket_stores hout
    refine ⟨⟨?_, ?_⟩, fun d hd => backed_control ⟨by decide, by decide⟩ (hds d hd)⟩
    · have hconns := processPacket_receiveOn hout
      split_ifs at hconns
      · rw [hconns]
        exact h.connections
      · rw [hconns]
        refine (h.putConnection ?_).connections
        rw [receiveOn_address]
        exact remembers_receiveOn (h.getOrCreate a.env.now a.sender) hdr payload
    · rcases hstores with ⟨hfa, hqueue⟩ | ⟨hdata, impl₁, hfa, hqueue, hpayload⟩
      · exact h.stores.of_eq hfa hqueue
      · refine (h.stores.of_eq hfa hqueue).processPayload (fun hknown => ?_) hpayload
        exact (ha hknown (hdr, payload) hpacket).resolve_left hdata

theorem Keeps.receiveLoop (h : Keeps told heard known impl) {arrivals : List Arrival}
    (ha : ∀ a ∈ arrivals, a.sender ∈ known → Backed (heard a.sender) a.bytes)
    (hout : receiveLoop P impl arrivals = some (impl', ds)) :
    Keeps told heard known impl' ∧ AllBacked told ds := by
  induction arrivals generalizing impl ds with
  | nil =>
    cases hout
    exact ⟨h, fun d hd => by cases hd⟩
  | cons a arrivals ih =>
    obtain ⟨⟨mid, ds₁⟩, hone, hout⟩ := Option.bind_eq_some_iff.mp hout
    obtain ⟨⟨last, ds₂⟩, hrest, hout⟩ := Option.bind_eq_some_iff.mp hout
    cases hout
    obtain ⟨hmid, hds₁⟩ := h.receiveOne (ha a List.mem_cons_self) hone
    obtain ⟨hlast, hds₂⟩ := ih hmid (fun a' ha' => ha a' (List.mem_cons_of_mem _ ha')) hrest
    exact ⟨hlast, hds₁.append hds₂⟩

theorem Keeps.finishPoll (h : Keeps told heard known impl) (env : Env) (t : Time) :
    Keeps told heard known (finishPoll env t impl).1 ∧ AllBacked told (finishPoll env t impl).2 := by
  rw [Udp.finishPoll, service_eq]
  refine ⟨⟨fun conn hconn => ?_, ?_⟩, fun d hd => ?_⟩
  · obtain ⟨conn', hconn', rfl⟩ := List.mem_map.mp (List.mem_of_mem_filter hconn)
    have halike := (serviceConnection_spec (impl.io env) t conn').1
    rw [halike.address]
    exact (h.connections conn' hconn').of_alike halike
  · exact (h.stores.filterAssemblies fun fa => ¬t - fa.startTime > 2).of_eq rfl rfl
  · obtain ⟨conn, hconn, hd⟩ := List.mem_flatMap.mp hd
    rw [((serviceConnection_spec (impl.io env) t conn).2 d hd).dest]
    exact backed_serviceConnection (h.connections conn hconn) d hd

theorem Keeps.poll (h : Keeps told heard known impl) {env : Env} {t : Time} {arrivals : List Arrival}
    (ha : ∀ a ∈ arrivals, a.sender ∈ known → Backed (heard a.sender) a.bytes)
    (hout : poll P env t arrivals impl = some (impl', ds)) :
    Keeps told heard known impl' ∧ AllBacked told ds := by
  rw [Udp.poll] at hout
  split_ifs at hout
  · cases hout
    exact ⟨h, fun d hd => by cases hd⟩
  · obtain ⟨⟨mid, ds₁⟩, hloop, hout⟩ := Option.bind_eq_some_iff.mp hout
    cases hout
    obtain ⟨hmid, hds₁⟩ := h.receiveLoop ha hloop
    obtain ⟨hlast, hds₂⟩ := hmid.finishPoll env t
    exact ⟨hlast, hds₁.append hds₂⟩

/-- A message is given to one connection. -/
theorem Keeps.sendToConnection (h : Keeps told heard known impl) {conn : Connection}
    (hconn : conn ∈ impl.connections) {data : Bytes} (hdata : data ∈ told conn.address) (io : Io)
    (r : PacketReliability) (priority : UInt8) :
    (sendToConnection io conn data r priority).1.Remembers
        (told (sendToConnection io conn data r priority).1.address) ∧
      AllBacked told (sendToConnection io conn data r priority).2.1 := by
  constructor
  · rw [sendToConnection_address]
    exact remembers_sendToConnection (h.connections conn hconn) hdata r priority
  · intro d hd
    rw [sendToConnection_dest io conn data r priority hd]
    exact backed_sendToConnection hdata r priority d hd

theorem Keeps.send (h : Keeps told heard known impl) (env : Env) {data : Bytes}
    (hdata : ∀ a ∈ impl.targets, data ∈ told a) (r : PacketReliability) :
    Keeps told heard known (send env data r impl).1 ∧ AllBacked told (send env data r impl).2.1 := by
  rw [Udp.send]
  split
  · rename_i conn conns hmode hconns
    have hmem : conn ∈ impl.connections := by
      rw [hconns]
      exact List.mem_cons_self
    have htarget : conn.address ∈ impl.targets := by
      rw [Impl.targets, hmode, hconns]
      exact List.mem_cons_self
    obtain ⟨hremembers, hds⟩ := h.sendToConnection hmem (hdata _ htarget) (impl.io env) r 0
    refine ⟨⟨fun conn' hconn' => ?_, h.stores.of_eq rfl rfl⟩, hds⟩
    rcases List.mem_cons.mp hconn' with rfl | hconn'
    · exact hremembers
    · exact h.connections conn' (by rw [hconns]; exact List.mem_cons_of_mem _ hconn')
  · rename_i hmode
    have hall : ∀ conn ∈ impl.connections, data ∈ told conn.address := by
      intro conn hconn
      refine hdata _ ?_
      rw [Impl.targets, hmode]
      exact List.mem_map_of_mem hconn
    dsimp only
    rw [(sendEach_eq (impl.io env) data r _).1, (sendEach_eq (impl.io env) data r _).2]
    refine ⟨⟨fun conn' hconn' => ?_, h.stores.of_eq rfl rfl⟩, fun d hd => ?_⟩
    · obtain ⟨conn, hconn, rfl⟩ := List.mem_map.mp hconn'
      exact (h.sendToConnection hconn (hall conn hconn) (impl.io env) r 0).1
    · obtain ⟨conn, hconn, hd⟩ := List.mem_flatMap.mp hd
      exact (h.sendToConnection hconn (hall conn hconn) (impl.io env) r 0).2 d hd
  · exact ⟨h, fun d hd => by cases hd⟩

theorem Keeps.sendWithPriority (h : Keeps told heard known impl) (env : Env) {address : Address}
    {data : Bytes} (hdata : data ∈ told address) (r : PacketReliability) (priority : UInt8) :
    Keeps told heard known (sendWithPriority env address data r priority impl).1 ∧
      AllBacked told (sendWithPriority env address data r priority impl).2.1 := by
  rw [Udp.sendWithPriority]
  split
  · exact ⟨h, fun d hd => by cases hd⟩
  · rename_i conn hfind
    have haddr : conn.address = address := lookup_key hfind
    obtain ⟨hremembers, hds⟩ := h.sendToConnection (lookup_mem hfind) (haddr ▸ hdata) (impl.io env) r
      priority
    exact ⟨h.putConnection hremembers, hds⟩

theorem keeps_nil {impl : Impl} (hconns : impl.connections = []) (hfa : impl.fragmentAssemblies = [])
    (hqueue : impl.receiveQueue = []) : Keeps told heard known impl := by
  refine ⟨?_, ?_, ?_⟩
  · rw [hconns]
    exact fun conn hconn => by cases hconn
  · rw [hfa]
    exact fun fa hfa => by cases hfa
  · rw [hqueue]
    exact fun pkt hpkt => by cases hpkt

theorem allBacked_disconnect (env : Env) (impl : Impl) : AllBacked told (disconnect env impl).2 := by
  intro d hd
  obtain ⟨conn, -, hd⟩ := List.mem_flatMap.mp hd
  exact backed_control ⟨by decide, by decide⟩ hd

end

end CampelloNet.Transport.Udp
