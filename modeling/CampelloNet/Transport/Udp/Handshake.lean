import CampelloNet.Transport.Udp.Client
import CampelloNet.Transport.Udp.Fragmentation

/-!
# The handshake

A Handshake packet is answered with a Handshake packet, whatever the state of the connection. Between
two ends whose network neither loses nor duplicates a datagram, one is on its way in every state that
a single `connect` leads to (`Link.Restless.on_its_way`), and it can be taken and answered any number
of times more (`handshakes_unbounded`).
-/

namespace CampelloNet.Transport.Udp

open Lib

/-- What `send_handshake` sends. -/
def handshakeBytes : Bytes := (controlHeader .handshake 0 0).serialize ++ []

/-- `process_packet` takes the datagram for a Handshake packet. -/
def isHandshake (d : Datagram) : Bool :=
  (packet d.bytes).any fun p =>
    p.1.protocolId = PacketHeader.PROTOCOL_ID && p.1.packetType = PacketType.handshake.toUInt8

theorem packet_handshakeBytes :
    packet handshakeBytes = some (controlHeader .handshake 0 0, []) :=
  packet_serialize_append _ (Nat.zero_le _)

theorem isHandshake_handshakeBytes (dest : Address) : isHandshake ⟨dest, handshakeBytes⟩ = true := by
  unfold isHandshake
  rw [packet_handshakeBytes]
  rfl

/-- Two ends and a network that keeps what it is given. -/
structure Link where
  world : World
  /-- the datagrams that polls have taken from the sockets, with the end that sent them -/
  taken : List (End × Datagram)

namespace Link

section
variable (P : Platform) (addr : End → Address)

/-- The datagrams of the peer that a poll at end `e` takes. -/
def takes (e : End) (arrivals : List Arrival) : List (End × Datagram) :=
  arrivals.map fun a => (e.peer, ⟨addr e, a.bytes⟩)

def step (link : Link) (call : World.Call) : Option Link :=
  (link.world.step P addr call).map fun world => ⟨world, link.taken ++ match call with
    | .poll e _ _ arrivals => if (link.world.node e).socketOpen then takes addr e arrivals else []
    | _ => []⟩

/-- The network accepts every datagram and hands out none that it does not hold. A poll takes any of
those it holds, in any order. -/
def Admissible (link : Link) : World.Call → Prop
  | .send _ env _ _ => ∀ d, env.sendto d = true
  | .sendWithPriority _ env _ _ _ _ => ∀ d, env.sendto d = true
  | .poll e env _ arrivals => (∀ d, env.sendto d = true) ∧
    (∀ a ∈ arrivals, a.sender = addr e.peer ∧ ∀ d, a.env.sendto d = true) ∧
      (link.taken ++ takes addr e arrivals).Subperm link.world.wire
  | _ => True

/-- The right end is bound and the left one has called `connect`, at the given time. -/
def opened (now : Time) : Link where
  world :=
    { node := fun
        | .left => (connect (World.goodEnv now) true (addr .right) {}).1
        | .right => (bind (World.goodEnv now) true {}).1
      wire := (connect (World.goodEnv now) true (addr .right) {}).2.1.map fun d => (.left, d)
      log := [] }
  taken := []

end

/-- The number of Handshake packets that the two ends have sent. -/
def handshakes (link : Link) : ℕ := link.world.wire.countP fun x => isHandshake x.2

/-- A Handshake packet to the peer. -/
def handshakeTo (addr : End → Address) (x : End × Datagram) : Bool :=
  x.2 = ⟨addr x.1.peer, handshakeBytes⟩

end Link

section
variable {P : Platform} {addr : End → Address} {impl impl' : Impl} {link link' : Link}

/-! ### What one end does -/

theorem receiveOne_handshake (P : Platform) {a : Arrival} (hopen : impl.socketOpen = true)
    (hsendto : ∀ d, a.env.sendto d = true) (hbytes : a.bytes = handshakeBytes) :
    ∃ impl', receiveOne P impl a = some (impl', [⟨a.sender, handshakeBytes⟩]) ∧
      impl'.socketOpen = true := by
  have hsend : sendHandshake (impl.io a.env) a.sender = [⟨a.sender, handshakeBytes⟩] := by
    unfold sendHandshake
    rw [sendRaw_of_accepting hopen hsendto _ _ (Nat.zero_le _)]
    rfl
  rw [receiveOne_eq, hbytes, packet_handshakeBytes]
  unfold processPacket
  rw [← hsend]
  exact ⟨_, rfl, hopen⟩

theorem receiveOne_socketOpen {a : Arrival} {ds : List Datagram}
    (h : receiveOne P impl a = some (impl', ds)) : impl'.socketOpen = impl.socketOpen := by
  rw [receiveOne_eq] at h
  split at h
  · cases h
    rfl
  · exact (processPacket_frame h).socketOpen

/-- Every handshake of the peer is answered. -/
theorem receiveLoop_answers {s : Address} {arrivals : List Arrival} {ds : List Datagram}
    (h : receiveLoop P impl arrivals = some (impl', ds)) (hopen : impl.socketOpen = true)
    (harrivals : ∀ a ∈ arrivals, a.sender = s ∧ ∀ d, a.env.sendto d = true) :
    impl'.socketOpen = true ∧
      (arrivals.countP fun a => a.bytes = handshakeBytes) ≤
        ds.countP fun d => d = ⟨s, handshakeBytes⟩ := by
  induction arrivals generalizing impl ds with
  | nil =>
    cases h
    exact ⟨hopen, Nat.zero_le _⟩
  | cons a arrivals ih =>
    obtain ⟨⟨mid, ds₁⟩, hone, h⟩ := Option.bind_eq_some_iff.mp h
    obtain ⟨⟨last, ds₂⟩, hrest, h⟩ := Option.bind_eq_some_iff.mp h
    cases h
    have hmid : mid.socketOpen = true := (receiveOne_socketOpen hone).trans hopen
    obtain ⟨hlast, hcount⟩ := ih hrest hmid fun b hb => harrivals b (List.mem_cons_of_mem _ hb)
    refine ⟨hlast, ?_⟩
    rw [List.countP_cons, List.countP_append]
    by_cases hbytes : a.bytes = handshakeBytes
    · obtain ⟨hsender, hsendto⟩ := harrivals a List.mem_cons_self
      obtain ⟨impl₁, hanswer, -⟩ := receiveOne_handshake P hopen hsendto hbytes
      rw [hone] at hanswer
      cases hanswer
      have hfirst : ([⟨a.sender, handshakeBytes⟩] : List Datagram).countP
          (fun d => d = ⟨s, handshakeBytes⟩) = 1 := by
        rw [hsender]
        simp
      rw [hfirst, if_pos (decide_eq_true hbytes)]
      omega
    · rw [if_neg (by simpa using hbytes)]
      omega

theorem send_socketOpen (env : Env) (data : Bytes) (r : PacketReliability) (impl : Impl) :
    (send env data r impl).1.socketOpen = impl.socketOpen := by
  unfold send
  split <;> rfl

theorem poll_answers {w w' : World} {e : End} {env : Env} {t : Time} {arrivals : List Arrival}
    (hstep : w.step P addr (.poll e env t arrivals) = some w')
    (hopen : (w.node e).socketOpen = true)
    (harrivals : ∀ a ∈ arrivals, a.sender = addr e.peer ∧ ∀ d, a.env.sendto d = true) :
    (w'.node e).socketOpen = true ∧ w'.node e.peer = w.node e.peer ∧ ∃ ds : List Datagram,
      w'.wire = w.wire ++ ds.map (fun d => (e, d)) ∧
        (arrivals.countP fun a => a.bytes = handshakeBytes) ≤
          ds.countP fun d => d = ⟨addr e.peer, handshakeBytes⟩ := by
  have hpoll := World.step_poll P addr w e env t arrivals
  unfold Udp.poll at hpoll
  rw [hstep, if_neg (by simp [hopen])] at hpoll
  obtain ⟨⟨impl, ds⟩, hout, heq⟩ := Option.map_eq_some_iff.mp hpoll.symm
  obtain ⟨⟨mid, ds₁⟩, hloop, hfin⟩ := Option.bind_eq_some_iff.mp hout
  obtain ⟨hmid, hcount⟩ := receiveLoop_answers hloop hopen harrivals
  cases hfin
  have hnode : w'.node e = _ := (Prod.ext_iff.mp heq).1.symm
  have hwire : w'.wire = _ := (Prod.ext_iff.mp heq).2.symm
  refine ⟨?_, ?_, _, hwire, ?_⟩
  · rw [hnode]
    exact hmid
  · rw [World.step, if_neg (by simp [hopen])] at hstep
    obtain ⟨w₁, hw₁, rfl⟩ := Option.map_eq_some_iff.mp hstep
    rw [World.finish, World.node_put_peer, World.receiveAll_node_peer P addr hw₁]
  · rw [List.countP_append]
    exact hcount.trans (Nat.le_add_right _ _)

/-! ### The invariant -/

namespace Link

/-- More handshakes have been sent than taken. -/
structure Restless (addr : End → Address) (link : Link) : Prop where
  opened : ∀ e, (link.world.node e).socketOpen = true
  held : link.taken.Subperm link.world.wire
  moving : link.taken.countP (handshakeTo addr) < link.world.wire.countP (handshakeTo addr)

theorem Restless.put (h : Restless addr link) {e : End} {impl : Impl} {ds : List Datagram}
    {events : List Event} (hopen : impl.socketOpen = (link.world.node e).socketOpen) :
    Restless addr ⟨link.world.put e impl ds events, link.taken ++ []⟩ where
  opened x := by
    rcases End.eq_or_eq_peer e x with rfl | rfl
    · rw [World.node_put_self, hopen, h.opened]
    · rw [World.node_put_peer, h.opened]
  held := by
    rw [List.append_nil]
    exact h.held.trans (List.sublist_append_left _ _).subperm
  moving := by
    rw [List.append_nil]
    refine h.moving.trans_le ?_
    exact (List.sublist_append_left _ _).countP_le

theorem countP_takes (e : End) (arrivals : List Arrival) :
    (takes addr e arrivals).countP (handshakeTo addr) =
      arrivals.countP fun a => a.bytes = handshakeBytes := by
  unfold takes
  rw [List.countP_map]
  congr 1
  funext a
  simp [handshakeTo]

theorem Restless.step (h : Restless addr link) {call : World.Call}
    (hadm : link.Admissible addr call) (hstep : link.step P addr call = some link') :
    Restless addr link' := by
  obtain ⟨w, hw, rfl⟩ := Option.map_eq_some_iff.mp hstep
  cases call with
  | send e env data r =>
    cases hw
    exact h.put (send_socketOpen env data r _)
  | sendWithPriority e env address data r priority =>
    cases hw
    exact h.put (front_sendWithPriority env address data r priority).2.1
  | poll e env t arrivals =>
    obtain ⟨-, harrivals, hheld⟩ := hadm
    obtain ⟨hself, hpeer, ds, hwire, hcount⟩ := poll_answers hw (h.opened e) harrivals
    refine ⟨fun x => ?_, ?_, ?_⟩
    · rcases End.eq_or_eq_peer e x with rfl | rfl
      · exact hself
      · rw [hpeer, h.opened]
    · dsimp only
      rw [if_pos (h.opened e), hwire]
      exact hheld.trans (List.sublist_append_left _ _).subperm
    · dsimp only
      rw [if_pos (h.opened e), hwire, List.countP_append, List.countP_append, countP_takes,
        List.countP_map]
      have hds : ds.countP (handshakeTo addr ∘ fun d => (e, d)) =
          ds.countP fun d => d = ⟨addr e.peer, handshakeBytes⟩ := rfl
      have := h.moving
      omega
  | popReceive e maxLength =>
    cases hw
    exact h.put (front_popReceive maxLength).2.1
  | setConnectionBandwidthLimit e address n =>
    cases hw
    exact h.put (front_setConnectionBandwidthLimit address n).2.1
  | setChannelBandwidthLimit e address r n =>
    cases hw
    exact h.put (front_setChannelBandwidthLimit address r n).2.1

/-- A handshake is on its way to one of the ends. -/
theorem Restless.on_its_way (h : Restless addr link) :
    ∃ e : End, (link.taken ++ [(e.peer, Datagram.mk (addr e) handshakeBytes)]).Subperm link.world.wire := by
  obtain ⟨kept, hkept, hsub⟩ := h.held
  obtain ⟨flight, hflight⟩ := hsub.exists_perm_append
  have hcount := hflight.countP_eq (handshakeTo addr)
  have htaken := hkept.countP_eq (handshakeTo addr)
  rw [List.countP_append] at hcount
  have hpos : 0 < flight.countP (handshakeTo addr) := by
    have := h.moving
    omega
  obtain ⟨⟨x, d⟩, hmem, hd⟩ := List.countP_pos_iff.mp hpos
  have hd : d = ⟨addr x.peer, handshakeBytes⟩ := of_decide_eq_true hd
  subst hd
  refine ⟨x.peer, ?_⟩
  rw [End.peer_peer]
  refine List.Subperm.trans ?_ hflight.symm.subperm
  refine (hkept.symm.append_right _).subperm.trans ?_
  exact (List.subperm_append_left _).mpr (List.singleton_subperm_iff.mpr hmem)

/-- A poll at that end takes it, and one more has been sent. -/
theorem Restless.exists_step (P : Platform) (h : Restless addr link) (now : Time) :
    ∃ call link', link.Admissible addr call ∧ link.step P addr call = some link' ∧
      link.handshakes + 1 ≤ link'.handshakes := by
  obtain ⟨e, hway⟩ := h.on_its_way
  let a : Arrival := ⟨addr e.peer, handshakeBytes, World.goodEnv now⟩
  have harrivals : ∀ b ∈ [a], b.sender = addr e.peer ∧ ∀ d, b.env.sendto d = true := by
    intro b hb
    obtain rfl := List.mem_singleton.mp hb
    exact ⟨rfl, fun _ => rfl⟩
  obtain ⟨impl, hone, hopen⟩ := receiveOne_handshake P (h.opened e)
    (harrivals a List.mem_cons_self).2 rfl
  obtain ⟨w, hw⟩ : ∃ w, link.world.step P addr (.poll e (World.goodEnv now) now [a]) = some w := by
    rw [World.step, if_neg (by simp [h.opened]), World.receiveAll, World.receive, hone]
    exact ⟨_, rfl⟩
  obtain ⟨-, -, ds, hwire, hcount⟩ := poll_answers hw (h.opened e) harrivals
  refine ⟨.poll e (World.goodEnv now) now [a], _, ⟨fun _ => rfl, harrivals, hway⟩,
    Option.map_eq_some_iff.mpr ⟨w, hw, rfl⟩, ?_⟩
  unfold handshakes
  dsimp only
  rw [hwire, List.countP_append, List.countP_map]
  have hmono : ds.countP (fun d => d = ⟨addr e.peer, handshakeBytes⟩) ≤
      ds.countP ((fun x : End × Datagram => isHandshake x.2) ∘ fun d => (e, d)) := by
    refine List.countP_mono_left fun d _ hd => ?_
    have hd : d = ⟨addr e.peer, handshakeBytes⟩ := of_decide_eq_true hd
    subst hd
    exact isHandshake_handshakeBytes _
  have hone' : [a].countP (fun b => b.bytes = handshakeBytes) = 1 := by simp [a]
  omega

theorem restless_opened (addr : End → Address) (now : Time) : Restless addr (opened addr now) where
  opened e := by cases e <;> rfl
  held := List.nil_subperm
  moving := by
    have hwire : (opened addr now).world.wire = [(.left, ⟨addr .right, handshakeBytes⟩)] := rfl
    rw [hwire]
    simp [opened, handshakeTo, End.peer]

/-- From every state that a run leads to there are runs on to any number of handshakes more. -/
theorem Restless.exists_run (P : Platform) (h : Restless addr link) (now : Time) (n : ℕ) :
    ∃ link', Run (Link.step P addr) (Admissible addr) link link' ∧ Restless addr link' ∧
      link.handshakes + n ≤ link'.handshakes := by
  induction n with
  | zero => exact ⟨link, .refl link, h, le_refl _⟩
  | succ n ih =>
    obtain ⟨link₁, hrun, h₁, hn⟩ := ih
    obtain ⟨call, link₂, hadm, hstep, hone⟩ := h₁.exists_step P now
    exact ⟨link₂, hrun.snoc hadm hstep, h₁.step hadm hstep, by omega⟩

end Link

/-- In every run a handshake is on its way, -/
theorem handshake_on_its_way {now : Time}
    (hrun : Run (Link.step P addr) (Link.Admissible addr) (Link.opened addr now) link) :
    ∃ e : End, (link.taken ++ [(e.peer, Datagram.mk (addr e) handshakeBytes)]).Subperm
      link.world.wire :=
  (hrun.invariant (Link.restless_opened addr now)
    fun _ _ _ h hadm hstep => h.step hadm hstep).on_its_way

end

/-- and no number bounds those that are sent in the runs that one `connect` begins, whatever the
addresses of the two ends. -/
theorem handshakes_unbounded (P : Platform) (addr : End → Address) (now : Time) :
    ¬∃ bound, ∀ link, Run (Link.step P addr) (Link.Admissible addr) (Link.opened addr now) link →
      link.handshakes ≤ bound := by
  rintro ⟨bound, hbound⟩
  obtain ⟨link, hrun, -, hmany⟩ := (Link.restless_opened addr now).exists_run P now (bound + 1)
  have := hbound link hrun
  omega

/-- So for two ends on one machine. -/
theorem handshakes_local :
    ¬∃ bound, ∀ link, Run (Link.step World.maskedShift World.localAddr)
      (Link.Admissible World.localAddr) (Link.opened World.localAddr 0) link →
        link.handshakes ≤ bound := by
  rintro ⟨bound, hbound⟩
  obtain ⟨link, hrun, -, hmany⟩ :=
    (Link.restless_opened World.localAddr 0).exists_run World.maskedShift 0 (bound + 1)
  have := hbound link hrun
  omega

end CampelloNet.Transport.Udp
