import CampelloNet.Transport.Udp.Frame

/-!
# What acks, resends and received packets do

The lemmas of `process_acks`, `resend_pending`, `process_packet` and of the second half of `poll`,
in terms of the view of each channel. A transport's channel to an address is `Impl.view`; to an
address it has no connection with, it is the view of a new connection.
-/

namespace CampelloNet.Transport.Udp

open Lib

/-! ### Acks -/

/-- Forget the messages that `(ack, ackBits)` acknowledges. -/
def ChannelView.ack (view : ChannelView) (ack : UInt16) (ackBits : UInt32) : ChannelView :=
  { view with pending := view.pending.filter fun m => !isAcked m.1 ack ackBits }

theorem foldl_sampleRtt (now : Time) (ps : List Pending) (conn : Connection) :
    (ps.foldl (sampleRtt now) conn).address = conn.address ∧
      (ps.foldl (sampleRtt now) conn).state = conn.state ∧
      (ps.foldl (sampleRtt now) conn).channels = conn.channels := by
  induction ps generalizing conn with
  | nil => exact ⟨rfl, rfl, rfl⟩
  | cons p ps ih => exact ih (sampleRtt now conn p)

@[simp] theorem processAcks_address (now : Time) (conn : Connection) (ch : Fin 4) (ack : UInt16)
    (ackBits : UInt32) : (processAcks now conn ch ack ackBits).address = conn.address := by
  rw [processAcks]
  split_ifs
  · rfl
  · exact (foldl_sampleRtt now _ conn).1

@[simp] theorem processAcks_state (now : Time) (conn : Connection) (ch : Fin 4) (ack : UInt16)
    (ackBits : UInt32) : (processAcks now conn ch ack ackBits).state = conn.state := by
  rw [processAcks]
  split_ifs
  · rfl
  · exact (foldl_sampleRtt now _ conn).2.1

theorem processAcks_channels_ne (now : Time) (conn : Connection) {ch c : Fin 4} (ack : UInt16)
    (ackBits : UInt32) (h : c ≠ ch) :
    (processAcks now conn ch ack ackBits).channels c = conn.channels c := by
  rw [processAcks]
  split_ifs
  · rfl
  · rw [Connection.channels_setChannel_ne _ _ _ h, (foldl_sampleRtt now _ conn).2.2]

theorem processAcks_channels_self (now : Time) (conn : Connection) {ch : Fin 4} (ack : UInt16)
    (ackBits : UInt32) (h : (PacketReliability.ofIndex ch).isReliable = true) :
    (processAcks now conn ch ack ackBits).channels ch =
      { conn.channels ch with
        pending := (conn.channels ch).pending.filter fun p => !isAcked p.sequence ack ackBits } := by
  rw [processAcks, if_neg (by simp [h]), Connection.channels_setChannel_self]

theorem processAcks_view_self (now : Time) (conn : Connection) {ch : Fin 4} (ack : UInt16)
    (ackBits : UInt32) (h : (PacketReliability.ofIndex ch).isReliable = true) :
    ((processAcks now conn ch ack ackBits).channels ch).view =
      (conn.channels ch).view.ack ack ackBits := by
  rw [processAcks_channels_self now conn ack ackBits h]
  simp [Channel.view, ChannelView.ack, Channel.receiver, List.filter_map, Function.comp_def,
    Pending.message]

/-! ### Resends -/

theorem resendFragments_spec (io : Io) (ch : Fin 4) (p : Pending) (is : List Nat)
    (conn : Connection) (known : Fin 4 → Message → Prop)
    (hknown : known ch (p.sequence, p.data, true)) :
    Alike conn (resendFragments io ch p is conn).1 ∧
      (resendFragments io ch p is conn).1.state = conn.state ∧
      ∀ d ∈ (resendFragments io ch p is conn).2, Emits conn known d := by
  induction is generalizing conn with
  | nil => exact ⟨Alike.rfl, rfl, fun d hd => by cases hd⟩
  | cons i is ih =>
    have ha := checkAndConsumeBandwidth_alike io conn ch (PacketHeader.SIZE + MAX_PAYLOAD_SIZE)
    have hs := checkAndConsumeBandwidth_state io conn ch (PacketHeader.SIZE + MAX_PAYLOAD_SIZE)
    rcases hc : checkAndConsumeBandwidth io conn ch (PacketHeader.SIZE + MAX_PAYLOAD_SIZE)
      with ⟨conn₁, ok⟩
    rw [hc] at ha hs
    obtain ⟨ha', hs', hd⟩ := ih conn₁
    cases ok with
    | false =>
      simp only [resendFragments, hc]
      exact ⟨ha.trans ha', hs'.trans hs, fun d hd' => (hd d hd').of_alike ha fun _ _ h => h⟩
    | true =>
      simp only [resendFragments, hc]
      refine ⟨ha.trans ha', hs'.trans hs, fun d hd' => ?_⟩
      rcases List.mem_append.mp hd' with hd' | hd'
      · obtain ⟨rfl, hlen⟩ := mem_toList_sendRaw hd'
        rw [ha.address]
        exact .fragment (ha.receiver _) hknown hlen
      · exact (hd d hd').of_alike ha fun _ _ h => h

theorem resendEntry_spec (io : Io) (ch : Fin 4) (p : Pending) (conn : Connection) :
    Alike conn (resendEntry io ch p conn).1 ∧ (resendEntry io ch p conn).1.state = conn.state ∧
      ∀ d ∈ (resendEntry io ch p conn).2, Emits conn (fun c m => c = ch ∧ m = p.message) d := by
  rw [resendEntry]
  split_ifs with hfrag
  · exact resendFragments_spec io ch p _ conn _ ⟨rfl, by rw [Pending.message, hfrag]⟩
  · have ha := checkAndConsumeBandwidth_alike io conn ch (PacketHeader.SIZE + p.data.length)
    have hs := checkAndConsumeBandwidth_state io conn ch (PacketHeader.SIZE + p.data.length)
    rcases hc : checkAndConsumeBandwidth io conn ch (PacketHeader.SIZE + p.data.length)
      with ⟨conn₁, ok⟩
    rw [hc] at ha hs
    cases ok with
    | false => exact ⟨ha, hs, fun d hd => by cases hd⟩
    | true =>
      refine ⟨ha, hs, fun d hd => ?_⟩
      obtain ⟨rfl, hlen⟩ := mem_toList_sendRaw hd
      have hm : p.message = (p.sequence, p.data, false) := by
        rw [Pending.message, eq_false_of_ne_true hfrag]
      rw [ha.address]
      exact .user (ha.receiver _) ⟨rfl, hm.symm⟩ hlen

theorem resendChannel_spec (io : Io) (t : Time) (ch : Fin 4) (ps : List Pending)
    (conn : Connection) :
    Alike conn (resendChannel io t ch ps conn).1 ∧
      (resendChannel io t ch ps conn).2.1.map Pending.message = ps.map Pending.message ∧
      ∀ d ∈ (resendChannel io t ch ps conn).2.2.1,
        Emits conn (fun c m => c = ch ∧ m ∈ ps.map Pending.message) d := by
  induction ps generalizing conn with
  | nil => exact ⟨Alike.rfl, rfl, fun d hd => by cases hd⟩
  | cons p ps ih =>
    have mono : ∀ (c : Fin 4) (m : Message), c = ch ∧ m ∈ ps.map Pending.message →
        c = ch ∧ m ∈ (p :: ps).map Pending.message := fun c m h =>
      ⟨h.1, List.mem_cons_of_mem _ h.2⟩
    simp only [resendChannel]
    split_ifs with htime hretries
    · exact ⟨⟨rfl, fun _ => rfl⟩, rfl, fun d hd => by cases hd⟩
    · obtain ⟨ha, -, hd⟩ := resendEntry_spec io ch { p with sendTime := t, retries := p.retries + 1 }
        conn
      obtain ⟨ha', hp, hd'⟩ := ih (resendEntry io ch
        { p with sendTime := t, retries := p.retries + 1 } conn).1
      refine ⟨ha.trans ha', by rw [List.map_cons, List.map_cons, hp]; rfl, fun d h => ?_⟩
      rcases List.mem_append.mp h with h | h
      · refine (hd d h).of_alike Alike.rfl ?_
        rintro c m ⟨rfl, rfl⟩
        exact ⟨rfl, List.mem_cons_self⟩
      · exact (hd' d h).of_alike ha mono
    · obtain ⟨ha, hp, hd⟩ := ih conn
      exact ⟨ha, by rw [List.map_cons, List.map_cons, hp],
        fun d h => (hd d h).of_alike Alike.rfl mono⟩

/-- A message waiting on one of the connection's channels. -/
def Waiting (conn : Connection) (ch : Fin 4) (m : Message) : Prop :=
  m ∈ (conn.channels ch).view.pending

theorem resendChannels_spec (io : Io) (t : Time) (chs : List (Fin 4)) (conn : Connection) :
    Alike conn (resendChannels io t chs conn).1 ∧
      ∀ d ∈ (resendChannels io t chs conn).2, Emits conn (Waiting conn) d := by
  induction chs generalizing conn with
  | nil => exact ⟨Alike.rfl, fun d hd => by cases hd⟩
  | cons ch chs ih =>
    obtain ⟨ha, hp, hd⟩ := resendChannel_spec io t ch (conn.channels ch).pending conn
    simp only [resendChannels]
    rcases hr : resendChannel io t ch (conn.channels ch).pending conn with ⟨conn₁, ps, out, stop⟩
    rw [hr] at ha hp hd
    have hout : ∀ d ∈ out, Emits conn (Waiting conn) d := fun d h =>
      (hd d h).of_alike Alike.rfl fun c m hm => by
        obtain ⟨rfl, hm⟩ := hm
        exact hm
    have ha' : Alike conn (conn₁.setChannel ch { conn₁.channels ch with pending := ps }) := by
      refine ha.setChannel ?_
      rw [← ha.view ch]
      have hps : ps.map Pending.message = (conn₁.channels ch).pending.map Pending.message :=
        hp.trans (congrArg ChannelView.pending (ha.view ch)).symm
      simp [Channel.view, hps, Channel.receiver]
    cases stop with
    | true => exact ⟨ha', hout⟩
    | false =>
      obtain ⟨ha'', hd'⟩ := ih (conn₁.setChannel ch { conn₁.channels ch with pending := ps })
      refine ⟨ha'.trans ha'', fun d h => ?_⟩
      rcases List.mem_append.mp h with h | h
      · exact hout d h
      · refine (hd' d h).of_alike ha' fun c m hm => ?_
        rw [Waiting, ← ha'.view c]
        exact hm

theorem resendPending_spec (io : Io) (t : Time) (conn : Connection) :
    Alike conn (resendPending io t conn).1 ∧
      ∀ d ∈ (resendPending io t conn).2, Emits conn (Waiting conn) d :=
  resendChannels_spec io t (List.finRange 4) conn

theorem serviceConnection_spec (io : Io) (t : Time) (conn : Connection) :
    Alike conn (serviceConnection io t conn).1 ∧
      ∀ d ∈ (serviceConnection io t conn).2, Emits conn (Waiting conn) d := by
  rw [serviceConnection]
  by_cases hstate : conn.state = .connected
  · rw [if_pos hstate]
    obtain ⟨ha, hd⟩ := resendPending_spec io t conn
    rcases hr : resendPending io t conn with ⟨conn₁, ds⟩
    rw [hr] at ha hd
    dsimp only
    split_ifs
    · refine ⟨⟨ha.address, ha.view⟩, fun d h => ?_⟩
      rcases List.mem_append.mp h with h | h
      · exact hd d h
      · obtain ⟨rfl, -⟩ := mem_toList_sendRaw h
        rw [ha.address]
        exact .control _ _ _
    · exact ⟨ha, hd⟩
  · rw [if_neg hstate]
    exact ⟨Alike.rfl, fun d hd => by cases hd⟩

end CampelloNet.Transport.Udp
