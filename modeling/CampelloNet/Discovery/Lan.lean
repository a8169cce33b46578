import CampelloNet.Discovery.LanDiscovery
import CampelloNet.Lib.Ledger
import CampelloNet.Lib.Floats
import CampelloNet.Lib.Intervals
import Mathlib.Data.Rat.Floor

/-!
# Peers on the local network

A `LanDiscovery` has one socket for both of its purposes. `start_advertising` opens a new one on a port of
the system's choice, `start_listening` opens one on the discovery port only if there is none: what
advertises does not hear (`sockets_run`). In exact arithmetic how many beacons are sent depends on the
time that has passed and not on the polls in which it was noticed (`beacons_sent`), and a listener is
called back for the beacons that reach it, one by one and as they were sent (`beacons_called`).
-/

namespace CampelloNet

open Lib Transport

/-- A `LanDiscovery` with its socket and its timer. -/
structure LanPeer extends LanDiscovery where
  /-- the port that the socket is bound to, 0 for one that the system chose -/
  boundPort : UInt16 := 0
  /-- the datagrams that wait on the socket -/
  queue : List LanDiscovery.Datagram := []
  advertising : Bool := false
  advertInterval : ℚ := 1
  advertAccumulator : ℚ := 0
  discoveryPort : UInt16 := 34590
  listening : Bool := false
  lastPoll : ℚ := 0

namespace LanPeer

open LanDiscovery

def closeSocket (peer : LanPeer) : LanPeer :=
  { peer with socketValid := false, queue := [], advertising := false, listening := false }

/-- `opened` is what the system answers. -/
def createSocket (opened : Bool) (port : UInt16) (peer : LanPeer) : LanPeer × Bool :=
  let peer := peer.closeSocket
  if opened then ({ peer with socketValid := true, boundPort := port }, true) else (peer, false)

def startAdvertising (opened : Bool) (discoveryPort gamePort : UInt16) (serverName : Bytes)
    (maxPlayers : UInt32) (intervalSeconds : ℚ) (peer : LanPeer) : LanPeer × Bool :=
  let (peer, ok) := peer.createSocket opened 0
  if !ok then (peer, false)
  else
    ({ peer with
      advertising := true
      discoveryPort := discoveryPort
      gamePort := gamePort
      serverName := serverName.take 255
      maxPlayers := maxPlayers
      currentPlayers := 0
      advertInterval := intervalSeconds
      advertAccumulator := 0 }, true)

def stopAdvertising (peer : LanPeer) : LanPeer :=
  if !peer.listening then peer.closeSocket else { peer with advertising := false }

def setCurrentPlayers (count : UInt32) (peer : LanPeer) : LanPeer :=
  { peer with currentPlayers := count }

def startListening (opened : Bool) (discoveryPort : UInt16) (peer : LanPeer) : LanPeer × Bool :=
  let (peer, ok) := if !peer.socketValid then peer.createSocket opened discoveryPort else (peer, true)
  if !ok then (peer, false) else ({ peer with listening := true }, true)

def stopListening (peer : LanPeer) : LanPeer :=
  if !peer.advertising then peer.closeSocket else { peer with listening := false }

def onBeaconReceived (set : Bool) (peer : LanPeer) : LanPeer := { peer with hasBeaconCb := set }

/-- The packets of `send_beacon`. Each is sent as a broadcast and to the host itself. -/
def sendBeacon (peer : LanPeer) : List Bytes := if !peer.socketValid then [] else [peer.beaconPacket]

section
variable (ar : Arith)

/-- `std::chrono::duration<float>` of the nanoseconds from one time to the other. -/
def secondsSince (lastPoll now : ℚ) : ℚ := ar.single (ar.single ((now - lastPoll) * 10 ^ 9) / 10 ^ 9)

/-- The loop of `poll`. There is no result if it goes on after so many turns. -/
def advertLoop : ℕ → LanPeer → Option (LanPeer × List Bytes)
  | turns, peer =>
    if peer.advertAccumulator ≥ peer.advertInterval then
      match turns with
      | 0 => none
      | turns + 1 =>
        (advertLoop turns { peer with
          advertAccumulator := ar.single (peer.advertAccumulator - peer.advertInterval) }).map fun out =>
            (out.1, peer.sendBeacon ++ out.2)
    else some (peer, [])

/-- The part of `poll` that advertises. -/
def advertise (dt : ℚ) (turns : ℕ) (peer : LanPeer) : Option (LanPeer × List Bytes) :=
  if peer.advertising then
    advertLoop ar turns { peer with advertAccumulator := ar.single (peer.advertAccumulator + dt) }
  else some (peer, [])

/-- The part of `poll` that listens, with the beacons of the calls. -/
def listen (peer : LanPeer) : LanPeer × List Beacon :=
  if peer.listening then
    let (beacons, queue) := peer.receiveBeacons peer.queue
    ({ peer with queue := queue }, beacons)
  else (peer, [])

/-- The packets that are sent and the beacons of the calls. -/
def poll (now : ℚ) (turns : ℕ) (peer : LanPeer) : Option (LanPeer × List Bytes × List Beacon) :=
  (({ peer with lastPoll := now } : LanPeer).advertise ar (secondsSince ar peer.lastPoll now) turns).map
    fun out =>
      let (peer, beacons) := out.1.listen
      (peer, out.2, beacons)

end

/-! ### One peer -/

/-- A datagram that is the packet of a server. -/
def Whole (d : Datagram) : Prop :=
  ∃ server : LanDiscovery, server.serverName.length ≤ 255 ∧ d.data = server.beaconPacket

/-- The beacon in a datagram. -/
def beaconOf (d : Datagram) : Option Beacon := parseBeacon d.ip d.data.length d.data

/-- What holds of the socket of a peer, whatever it was asked to do. -/
structure Consistent (peer : LanPeer) : Prop where
  socket : peer.socketValid = (peer.advertising || peer.listening)
  chosen : peer.advertising = true → peer.boundPort = 0
  deaf : peer.boundPort = 0 → peer.queue = []
  name : peer.serverName.length ≤ 255
  waiting : ∀ d ∈ peer.queue, Whole d

section
variable {ar : Arith} {peer : LanPeer}

theorem consistent_closeSocket (h : peer.Consistent) : peer.closeSocket.Consistent :=
  ⟨rfl, nofun, fun _ => rfl, h.name, nofun⟩

theorem consistent_startAdvertising (h : peer.Consistent) (opened : Bool) (discoveryPort gamePort : UInt16)
    (serverName : Bytes) (maxPlayers : UInt32) (intervalSeconds : ℚ) :
    (peer.startAdvertising opened discoveryPort gamePort serverName maxPlayers
      intervalSeconds).1.Consistent := by
  unfold startAdvertising createSocket
  cases opened with
  | false => exact consistent_closeSocket h
  | true => exact ⟨rfl, fun _ => rfl, fun _ => rfl, List.length_take_le _ _, nofun⟩

theorem consistent_stopAdvertising (h : peer.Consistent) : peer.stopAdvertising.Consistent := by
  unfold stopAdvertising
  split_ifs with hlistening
  · exact consistent_closeSocket h
  · rw [Bool.not_eq_true', Bool.not_eq_false] at hlistening
    refine ⟨?_, nofun, h.deaf, h.name, h.waiting⟩
    show peer.socketValid = (false || peer.listening)
    rw [h.socket, hlistening, Bool.or_true, Bool.or_true]

theorem consistent_startListening (h : peer.Consistent) (opened : Bool) (discoveryPort : UInt16) :
    (peer.startListening opened discoveryPort).1.Consistent := by
  unfold startListening
  rcases hvalid : peer.socketValid with _ | _
  · unfold createSocket
    cases opened with
    | false => exact consistent_closeSocket h
    | true => exact ⟨rfl, nofun, fun _ => rfl, h.name, nofun⟩
  · refine ⟨?_, h.chosen, h.deaf, h.name, h.waiting⟩
    show peer.socketValid = (peer.advertising || true)
    rw [hvalid, Bool.or_true]

theorem consistent_stopListening (h : peer.Consistent) : peer.stopListening.Consistent := by
  unfold stopListening
  split_ifs with hadvertising
  · exact consistent_closeSocket h
  · rw [Bool.not_eq_true', Bool.not_eq_false] at hadvertising
    refine ⟨?_, h.chosen, h.deaf, h.name, h.waiting⟩
    show peer.socketValid = (peer.advertising || false)
    rw [h.socket, hadvertising, Bool.true_or, Bool.true_or]

/-- The loop changes nothing but the accumulator, and sends the same packet in each turn. -/
theorem advertLoop_frame {turns : ℕ} {out : LanPeer × List Bytes}
    (h : peer.advertLoop ar turns = some out) :
    ∃ left k, out = ({ peer with advertAccumulator := left }, List.replicate k peer.beaconPacket) := by
  induction turns generalizing peer out with
  | zero =>
    rw [advertLoop] at h
    split_ifs at h
    obtain rfl := Option.some.inj h
    exact ⟨_, 0, rfl⟩
  | succ turns ih =>
    rw [advertLoop] at h
    split_ifs at h with hdue
    · obtain ⟨rest, hrest, rfl⟩ := Option.map_eq_some_iff.mp h
      obtain ⟨left, k, rfl⟩ := ih hrest
      unfold sendBeacon
      split_ifs
      · exact ⟨left, k, rfl⟩
      · exact ⟨left, k + 1, rfl⟩
    · obtain rfl := Option.some.inj h
      exact ⟨_, 0, rfl⟩

theorem receiveBeacons_nil (peer : LanDiscovery) : peer.receiveBeacons [] = ([], []) := by
  unfold receiveBeacons
  split_ifs <;> rfl

theorem beaconOf_announced {server : LanDiscovery} (hname : server.serverName.length ≤ 255) {d : Datagram}
    (hdata : d.data = server.beaconPacket) : beaconOf d = some (server.announced d.ip) := by
  have hparse := parseBeacon_packet hname d.ip le_rfl []
  rwa [List.append_nil, ← hdata] at hparse

/-- Of whole packets the loop leaves none, and calls back for each. -/
theorem receiveLoop_whole {queue : List Datagram} (h : ∀ d ∈ queue, Whole d) (buffer : Bytes) :
    receiveLoop queue buffer = (queue.filterMap beaconOf, []) := by
  induction queue generalizing buffer with
  | nil => rfl
  | cons d queue ih =>
    obtain ⟨server, hname, hdata⟩ := h d List.mem_cons_self
    have hlen : d.data.length = 16 + min server.serverName.length 255 := by
      rw [hdata, length_beaconPacket]
    have hparse : parseBeacon d.ip d.data.length (overwrite d.data buffer) =
        some (server.announced d.ip) := by
      unfold overwrite
      rw [hdata]
      exact parseBeacon_packet hname d.ip le_rfl _
    rw [receiveLoop, if_neg (by omega), ih fun e he => h e (List.mem_cons_of_mem _ he), hparse,
      List.filterMap_cons, beaconOf_announced hname hdata]

theorem receiveBeacons_whole {queue : List Datagram} (h : ∀ d ∈ queue, Whole d) {peer : LanDiscovery}
    (hvalid : peer.socketValid = true) (hcallback : peer.hasBeaconCb = true) :
    peer.receiveBeacons queue = (queue.filterMap beaconOf, []) := by
  unfold receiveBeacons
  rw [hvalid, hcallback, if_neg (by simp)]
  exact receiveLoop_whole h _

theorem mem_receiveBeacons {queue : List Datagram} (h : ∀ d ∈ queue, Whole d) {peer : LanDiscovery}
    {d : Datagram} (hd : d ∈ (peer.receiveBeacons queue).2) : d ∈ queue := by
  unfold receiveBeacons at hd
  split_ifs at hd
  · exact hd
  · rw [receiveLoop_whole h] at hd
    cases hd

/-- A poll sends packets if the peer advertises, and takes datagrams if it listens. -/
theorem poll_spec {now : ℚ} {turns : ℕ} {out : LanPeer × List Bytes × List Beacon}
    (h : peer.poll ar now turns = some out) : ∃ left k,
      (peer.advertising = false → k = 0) ∧
      out.1 = { peer with
        lastPoll := now
        advertAccumulator := left
        queue := if peer.listening then (peer.receiveBeacons peer.queue).2 else peer.queue } ∧
      out.2.1 = List.replicate k peer.beaconPacket ∧
      out.2.2 = if peer.listening then (peer.receiveBeacons peer.queue).1 else [] := by
  obtain ⟨sent, hsent, rfl⟩ := Option.map_eq_some_iff.mp h
  obtain ⟨left, k, hk, rfl⟩ : ∃ left k, (peer.advertising = false → k = 0) ∧ sent =
      (({ peer with lastPoll := now, advertAccumulator := left } : LanPeer),
        List.replicate k peer.beaconPacket) := by
    unfold advertise at hsent
    split_ifs at hsent with hadvertising
    · obtain ⟨left, k, rfl⟩ := advertLoop_frame hsent
      refine ⟨left, k, fun hno => ?_, rfl⟩
      rw [show peer.advertising = true from hadvertising] at hno
      cases hno
    · exact ⟨peer.advertAccumulator, 0, fun _ => rfl, (Option.some.inj hsent).symm⟩
  refine ⟨left, k, hk, ?_⟩
  unfold listen
  dsimp only
  split_ifs
  · exact ⟨rfl, rfl, rfl⟩
  · exact ⟨rfl, rfl, rfl⟩

/-! ### In exact arithmetic -/

/-- The loop sends a packet for each whole interval and leaves the rest, if it has turns enough. -/
theorem advertLoop_eq (hpos : 0 < peer.advertInterval) (hvalid : peer.socketValid = true) (turns : ℕ) :
    peer.advertLoop .exact turns = if wholes peer.advertInterval peer.advertAccumulator ≤ turns then some
      ({ peer with advertAccumulator := rest peer.advertInterval peer.advertAccumulator },
        List.replicate (wholes peer.advertInterval peer.advertAccumulator) peer.beaconPacket)
    else none := by
  induction turns generalizing peer with
  | zero =>
    rw [advertLoop]
    by_cases hdue : peer.advertAccumulator ≥ peer.advertInterval
    · have hone := (one_le_wholes_iff hpos).mpr hdue
      rw [if_pos hdue, if_neg (by omega)]
    · rw [if_neg hdue, wholes_of_lt hpos (not_le.mp hdue), rest_of_lt hpos (not_le.mp hdue),
        if_pos le_rfl]
      rfl
  | succ turns ih =>
    rw [advertLoop]
    by_cases hdue : peer.advertAccumulator ≥ peer.advertInterval
    · have hone := (one_le_wholes_iff hpos).mpr hdue
      have hless := wholes_sub (x := peer.advertAccumulator) hpos
      have hrest : rest peer.advertInterval (peer.advertAccumulator - peer.advertInterval) =
          rest peer.advertInterval peer.advertAccumulator := by
        unfold rest
        rw [hless, Nat.cast_sub hone]
        push_cast
        ring
      have hloop := @ih { peer with
        advertAccumulator := peer.advertAccumulator - peer.advertInterval } hpos hvalid
      obtain ⟨n, hn⟩ : ∃ n, wholes peer.advertInterval peer.advertAccumulator = n + 1 :=
        ⟨_, (Nat.sub_add_cancel hone).symm⟩
      rw [if_pos hdue]
      dsimp only [Arith.exact_single] at hloop ⊢
      rw [hloop, hless, hrest, hn, Nat.add_sub_cancel, sendBeacon, hvalid]
      by_cases hturns : n ≤ turns
      · rw [if_pos hturns, if_pos (Nat.succ_le_succ hturns)]
        rfl
      · rw [if_neg hturns, if_neg (mt Nat.le_of_succ_le_succ hturns)]
        rfl
    · rw [if_neg hdue, wholes_of_lt hpos (not_le.mp hdue), rest_of_lt hpos (not_le.mp hdue),
        if_pos (Nat.zero_le _)]
      rfl

/-- Where the interval is not positive, the loop goes on for ever. -/
theorem advertLoop_endless (hpos : peer.advertInterval ≤ 0) (hacc : 0 ≤ peer.advertAccumulator)
    (turns : ℕ) : peer.advertLoop .exact turns = none := by
  induction turns generalizing peer with
  | zero =>
    rw [advertLoop]
    exact if_pos (hpos.trans hacc)
  | succ turns ih =>
    have hmore : 0 ≤ peer.advertAccumulator - peer.advertInterval := by linarith
    rw [advertLoop, if_pos (hpos.trans hacc)]
    dsimp only [Arith.exact_single]
    rw [@ih { peer with
      advertAccumulator := peer.advertAccumulator - peer.advertInterval } hpos hmore]
    rfl

/-- A peer that advertises, when its loop begins. -/
def elapse (now : ℚ) (peer : LanPeer) : LanPeer :=
  { peer with lastPoll := now, advertAccumulator := peer.advertAccumulator + (now - peer.lastPoll) }

section
variable (hadvertising : peer.advertising = true)
include hadvertising

theorem poll_advertising (now : ℚ) (turns : ℕ) : peer.poll .exact now turns =
    ((peer.elapse now).advertLoop .exact turns).map fun out =>
      (out.1.listen.1, out.2, out.1.listen.2) := by
  have hseconds : secondsSince .exact peer.lastPoll now = now - peer.lastPoll :=
    mul_div_cancel_right₀ _ (by norm_num)
  unfold poll advertise
  dsimp only
  rw [if_pos hadvertising, hseconds]
  rfl

theorem isSome_poll_iff (hvalid : peer.socketValid = true) (hacc : 0 ≤ peer.advertAccumulator) {now : ℚ}
    (hnow : peer.lastPoll ≤ now) :
    (∃ turns, (peer.poll .exact now turns).isSome) ↔ 0 < peer.advertInterval := by
  constructor
  · rintro ⟨turns, hsome⟩
    by_contra hpos
    have hlater : 0 ≤ (peer.elapse now).advertAccumulator :=
      add_nonneg hacc (sub_nonneg.mpr hnow)
    rw [poll_advertising hadvertising,
      advertLoop_endless (show (peer.elapse now).advertInterval ≤ 0 from not_lt.mp hpos) hlater] at hsome
    cases hsome
  · intro hpos
    refine ⟨wholes (peer.elapse now).advertInterval (peer.elapse now).advertAccumulator, ?_⟩
    rw [poll_advertising hadvertising,
      advertLoop_eq (show 0 < (peer.elapse now).advertInterval from hpos) hvalid, if_pos le_rfl]
    rfl

/-- What is sent by a peer that advertises, and what is left on its timer. -/
theorem poll_timed (hvalid : peer.socketValid = true) (hpos : 0 < peer.advertInterval) {now : ℚ}
    {turns : ℕ} {out : LanPeer × List Bytes × List Beacon} (h : peer.poll .exact now turns = some out) :
    out.1.advertAccumulator =
        rest peer.advertInterval (peer.advertAccumulator + (now - peer.lastPoll)) ∧
      out.2.1 = List.replicate
        (wholes peer.advertInterval (peer.advertAccumulator + (now - peer.lastPoll)))
        peer.beaconPacket := by
  rw [poll_advertising hadvertising,
    advertLoop_eq (show 0 < (peer.elapse now).advertInterval from hpos) hvalid] at h
  split_ifs at h
  · obtain rfl := Option.some.inj h
    refine ⟨?_, rfl⟩
    unfold listen
    dsimp only
    split_ifs <;> rfl
  · cases h

end

theorem consistent_poll {now : ℚ} {turns : ℕ} {out : LanPeer × List Bytes × List Beacon}
    (h : peer.Consistent) (hpoll : peer.poll ar now turns = some out) : out.1.Consistent := by
  obtain ⟨left, k, -, hout, -⟩ := poll_spec hpoll
  rw [hout]
  refine ⟨h.socket, h.chosen, fun hport => ?_, h.name, fun d hd => ?_⟩
  · dsimp only
    rw [h.deaf hport, receiveBeacons_nil, ite_self]
  · dsimp only at hd
    split_ifs at hd
    · exact h.waiting d (mem_receiveBeacons h.waiting hd)
    · exact h.waiting d hd

end

end LanPeer

/-! ### The network -/

/-- A packet that was sent, from where and to which port, and what its sender was then. -/
structure Flight where
  sender : ℕ
  port : UInt16
  packet : Bytes
  server : LanDiscovery

/-- Peers, and what they have sent. -/
structure Lan where
  peer : ℕ → LanPeer
  air : List Flight := []

namespace Lan

open LanDiscovery LanPeer

abbrev Host := UInt8 × UInt8 × UInt8 × UInt8

inductive Call
  | startAdvertising (opened : Bool) (discoveryPort gamePort : UInt16) (serverName : Bytes)
      (maxPlayers : UInt32) (intervalSeconds : ℚ)
  | stopAdvertising
  | setCurrentPlayers (count : UInt32)
  | startListening (opened : Bool) (discoveryPort : UInt16)
  | stopListening
  | onBeaconReceived (set : Bool)
  | poll (now : ℚ) (turns : ℕ)
  /-- a packet reaches the peer, as a broadcast or by way of its own host -/
  | arrive (n : ℕ) (broadcast : Bool)

def set (i : ℕ) (peer : LanPeer) (s : Lan) : Lan := { s with peer := Function.update s.peer i peer }

section
variable (ar : Arith) (host : ℕ → Host)

/-- Where a packet seems to be from. -/
def source (f : Flight) (broadcast : Bool) : Host :=
  if broadcast then host f.sender else (127, 0, 0, 1)

/-- The packet as the buffer of a peer takes it. -/
def datagram (f : Flight) (broadcast : Bool) : Datagram :=
  ⟨source host f broadcast, f.packet.take BUF_SIZE, List.length_take_le _ _⟩

/-- The flight that arrives: it goes to the port of the peer's socket, and without a broadcast to the host
that it is from. -/
def arriving (i n : ℕ) (broadcast : Bool) (s : Lan) : Option Flight :=
  s.air[n]?.filter fun f => (s.peer i).socketValid ∧ (s.peer i).boundPort = f.port ∧ f.port ≠ 0 ∧
    (broadcast ∨ host i = host f.sender)

/-- A call of a peer. Packets may be lost, doubled and arrive in any order. -/
def step (s : Lan) : ℕ × Call → Option Lan
  | (i, .startAdvertising opened discoveryPort gamePort serverName maxPlayers intervalSeconds) =>
    some (s.set i ((s.peer i).startAdvertising opened discoveryPort gamePort serverName maxPlayers
      intervalSeconds).1)
  | (i, .stopAdvertising) => some (s.set i (s.peer i).stopAdvertising)
  | (i, .setCurrentPlayers count) => some (s.set i ((s.peer i).setCurrentPlayers count))
  | (i, .startListening opened discoveryPort) =>
    some (s.set i ((s.peer i).startListening opened discoveryPort).1)
  | (i, .stopListening) => some (s.set i (s.peer i).stopListening)
  | (i, .onBeaconReceived callback) => some (s.set i ((s.peer i).onBeaconReceived callback))
  | (i, .poll now turns) => ((s.peer i).poll ar now turns).map fun out =>
    { s.set i out.1 with
      air := s.air ++ out.2.1.map fun packet =>
        ⟨i, (s.peer i).discoveryPort, packet, (s.peer i).toLanDiscovery⟩ }
  | (i, .arrive n broadcast) => (s.arriving host i n broadcast).map fun f =>
    s.set i { s.peer i with queue := (s.peer i).queue ++ [datagram host f broadcast] }

/-- The beacons that peer `i` is called back for. -/
def called (i : ℕ) (s : Lan) : ℕ × Call → List Beacon
  | (j, .poll now turns) => if j = i then
      (((s.peer i).poll ar now turns).map fun out => out.2.2).getD [] else []
  | _ => []

/-- The beacons that reach peer `i`, as they were sent. -/
def reached (i : ℕ) (s : Lan) : ℕ × Call → List Beacon
  | (j, .arrive n broadcast) => if j = i then
      ((s.arriving host i n broadcast).map fun f => f.server.announced (source host f broadcast)).toList
      else []
  | _ => []

end

/-! ### Steps -/

section
variable {ar : Arith} {host : ℕ → Host} {s t : Lan} {i : ℕ} {l : ℕ × Call}

theorem peer_set_self (peer : LanPeer) : (s.set i peer).peer i = peer := Function.update_self ..

theorem peer_set_ne {j : ℕ} (h : j ≠ i) (peer : LanPeer) : (s.set i peer).peer j = s.peer j :=
  Function.update_of_ne h ..

theorem arriving_spec {n : ℕ} {broadcast : Bool} {f : Flight} (h : s.arriving host i n broadcast = some f) :
    f ∈ s.air ∧ (s.peer i).boundPort = f.port ∧ f.port ≠ 0 := by
  obtain ⟨hget, hport⟩ := Option.filter_eq_some_iff.mp h
  have hport := of_decide_eq_true hport
  exact ⟨List.mem_of_getElem? hget, hport.2.1, hport.2.2.1⟩

/-- The buffer is large enough for every packet. -/
theorem data_datagram {f : Flight} (hpacket : f.packet = f.server.beaconPacket)
    (hname : f.server.serverName.length ≤ 255) (broadcast : Bool) :
    (datagram host f broadcast).data = f.packet := by
  have hlen : f.packet.length = 16 + min f.server.serverName.length 255 := by
    rw [hpacket, length_beaconPacket]
  have hsize : BUF_SIZE = 1024 := rfl
  exact List.take_of_length_le (by omega)

/-- A call concerns one peer. -/
theorem peer_step_ne (h : s.step ar host l = some t) (hne : i ≠ l.1) : t.peer i = s.peer i := by
  obtain ⟨j, call⟩ := l
  cases call with
  | poll | arrive =>
    obtain ⟨out, -, rfl⟩ := Option.map_eq_some_iff.mp h
    exact peer_set_ne hne _
  | _ =>
    cases h
    exact peer_set_ne hne _

/-- What peers are like, and what they have sent. -/
structure Sound (s : Lan) : Prop where
  peers : ∀ i, (s.peer i).Consistent
  packets : ∀ f ∈ s.air, f.packet = f.server.beaconPacket ∧ f.server.serverName.length ≤ 255

theorem sound_set (h : s.Sound) {peer : LanPeer} (hpeer : peer.Consistent) : (s.set i peer).Sound := by
  refine ⟨fun j => ?_, h.packets⟩
  by_cases hj : j = i
  · rw [hj, peer_set_self]
    exact hpeer
  · rw [peer_set_ne hj]
    exact h.peers j

theorem sound_step (h : s.Sound) (hstep : s.step ar host l = some t) : t.Sound := by
  obtain ⟨i, call⟩ := l
  have hi := h.peers i
  cases call with
  | startAdvertising =>
    cases hstep
    exact sound_set h (consistent_startAdvertising hi _ _ _ _ _ _)
  | stopAdvertising =>
    cases hstep
    exact sound_set h (consistent_stopAdvertising hi)
  | setCurrentPlayers count =>
    cases hstep
    exact sound_set h ⟨hi.socket, hi.chosen, hi.deaf, hi.name, hi.waiting⟩
  | startListening =>
    cases hstep
    exact sound_set h (consistent_startListening hi _ _)
  | stopListening =>
    cases hstep
    exact sound_set h (consistent_stopListening hi)
  | onBeaconReceived callback =>
    cases hstep
    exact sound_set h ⟨hi.socket, hi.chosen, hi.deaf, hi.name, hi.waiting⟩
  | poll now turns =>
    obtain ⟨out, hpoll, rfl⟩ := Option.map_eq_some_iff.mp hstep
    have hset := sound_set (i := i) h (consistent_poll hi hpoll)
    refine ⟨hset.peers, fun f hf => ?_⟩
    rcases List.mem_append.mp hf with hf | hf
    · exact h.packets f hf
    · obtain ⟨left, k, -, -, hpackets, -⟩ := poll_spec hpoll
      rw [hpackets] at hf
      obtain ⟨packet, hpacket, rfl⟩ := List.mem_map.mp hf
      exact ⟨List.eq_of_mem_replicate hpacket, hi.name⟩
  | arrive n broadcast =>
    obtain ⟨f, hf, rfl⟩ := Option.map_eq_some_iff.mp hstep
    obtain ⟨hmem, hbound, hne⟩ := arriving_spec hf
    refine sound_set h ⟨hi.socket, hi.chosen, fun hport => ?_, hi.name, fun d hd => ?_⟩
    · exact absurd (hbound.symm.trans hport) hne
    · rcases List.mem_append.mp hd with hd | hd
      · exact hi.waiting d hd
      · obtain rfl := List.mem_singleton.mp hd
        obtain ⟨hpacket, hname⟩ := h.packets f hmem
        exact ⟨f.server, hname, (data_datagram hpacket hname broadcast).trans hpacket⟩

theorem sound_run {ls : List (ℕ × Call)} (h : s.Sound) (hrun : Run.exec (step ar host) s ls = some t) :
    t.Sound := Run.invariant_exec hrun h fun _ _ _ hs hstep => sound_step hs hstep

/-! ### What advertises does not hear -/

/-- A socket on a port of the system's choice is not given up for another one. -/
theorem boundPort_step (hport : (s.peer i).boundPort = 0) (hvalid : (s.peer i).socketValid = true)
    (hstep : s.step ar host l = some t) (hopen : (t.peer i).socketValid = true) :
    (t.peer i).boundPort = 0 := by
  by_cases hi : i = l.1
  · obtain ⟨j, call⟩ := l
    obtain rfl : i = j := hi
    cases call with
    | startAdvertising opened =>
      cases hstep
      rw [peer_set_self] at hopen ⊢
      unfold startAdvertising createSocket at hopen ⊢
      cases opened with
      | false => cases hopen
      | true => rfl
    | stopAdvertising =>
      cases hstep
      rw [peer_set_self] at hopen ⊢
      unfold stopAdvertising at hopen ⊢
      split_ifs at hopen ⊢
      · cases hopen
      · exact hport
    | startListening =>
      cases hstep
      rw [peer_set_self]
      unfold startListening
      rw [hvalid]
      exact hport
    | stopListening =>
      cases hstep
      rw [peer_set_self] at hopen ⊢
      unfold stopListening at hopen ⊢
      split_ifs at hopen ⊢
      · cases hopen
      · exact hport
    | poll now turns =>
      obtain ⟨out, hpoll, rfl⟩ := Option.map_eq_some_iff.mp hstep
      obtain ⟨left, k, -, hout, -⟩ := poll_spec hpoll
      show ((s.set i out.1).peer i).boundPort = 0
      rw [peer_set_self, hout]
      exact hport
    | arrive n broadcast =>
      obtain ⟨f, -, rfl⟩ := Option.map_eq_some_iff.mp hstep
      rw [peer_set_self]
      exact hport
    | _ =>
      cases hstep
      rw [peer_set_self]
      exact hport
  · rw [peer_step_ne hstep hi]
    exact hport

theorem called_of_deaf (h : (s.peer i).Consistent) (hport : (s.peer i).boundPort = 0) :
    s.called ar i l = [] := by
  obtain ⟨j, call⟩ := l
  cases call with
  | poll now turns =>
    show (if j = i then _ else _) = _
    split_ifs
    · rcases hpoll : (s.peer i).poll ar now turns with _ | out
      · rfl
      · obtain ⟨left, k, -, -, -, hbeacons⟩ := poll_spec hpoll
        rw [h.deaf hport, receiveBeacons_nil, ite_self] at hbeacons
        exact hbeacons
    · rfl
  | _ => rfl

theorem deaf_run {ls : List (ℕ × Call)} (h : s.Sound) (hport : (s.peer i).boundPort = 0)
    (hopen : Run.Always (step ar host) (fun u => (u.peer i).socketValid = true) s ls) :
    Run.gather (step ar host) (called ar i) s ls = [] := by
  induction ls generalizing s with
  | nil => rfl
  | cons l ls ih =>
    rcases hstep : s.step ar host l with _ | u
    · rw [Run.gather, hstep, called_of_deaf (h.peers i) hport]
      rfl
    · have hnext := hopen.2 u hstep
      have hvalid : (u.peer i).socketValid = true := by
        cases ls with
        | nil => exact hnext
        | cons => exact hnext.1
      rw [Run.gather_cons hstep, called_of_deaf (h.peers i) hport,
        ih (sound_step h hstep) (boundPort_step hport hopen.1 hstep hvalid) hnext]
      rfl

end

/-- Peers as they are made. -/
structure Fresh (s : Lan) : Prop where
  peers : ∀ i, ∃ lastPoll, s.peer i = { lastPoll := lastPoll }
  air : s.air = []

theorem Fresh.sound {s : Lan} (h : s.Fresh) : s.Sound := by
  refine ⟨fun i => ?_, fun f hf => ?_⟩
  · obtain ⟨lastPoll, hpeer⟩ := h.peers i
    rw [hpeer]
    exact ⟨rfl, nofun, fun _ => rfl, Nat.zero_le _, nofun⟩
  · rw [h.air] at hf
    cases hf

/-- In every run a peer has a socket exactly while it advertises or listens, and what advertises is on a
port of the system's choice: it is called back for nothing, until its socket is closed. -/
theorem sockets_run (ar : Arith) (host : ℕ → Host) (s t : Lan) (run : List (ℕ × Call))
    (hfresh : s.Fresh) (h : Run.exec (step ar host) s run = some t) (i : ℕ) : (t.peer i).Consistent ∧
      ((t.peer i).advertising = true → ∀ later,
        Run.Always (step ar host) (fun u => (u.peer i).socketValid = true) t later →
        Run.gather (step ar host) (called ar i) t later = []) := by
  have hsound : t.Sound := sound_run hfresh.sound h
  exact ⟨hsound.peers i, fun hadvertising later hopen =>
    deaf_run hsound ((hsound.peers i).chosen hadvertising) hopen⟩

/-- The hosts of a home network. -/
def homeHost (i : ℕ) : Host := (192, 168, 1, UInt8.ofNat (i + 2))

def home : Lan := { peer := fun _ => {} }

theorem home_fresh : home.Fresh := ⟨fun _ => ⟨_, rfl⟩, rfl⟩

/-- Peer 0 listens, then it advertises too: it gives up the discovery port. -/
def both : List (ℕ × Call) :=
  [(0, .startListening true 34590), (0, .startAdvertising true 34590 34567 [72, 105] 8 1),
    (0, .startListening true 34590)]

theorem sockets_run_both : ∃ t, Run.exec (step .ieee homeHost) home both = some t ∧
    (t.peer 0).Consistent ∧
    ((t.peer 0).advertising = true → ∀ later,
      Run.Always (step .ieee homeHost) (fun u => (u.peer 0).socketValid = true) t later →
      Run.gather (step .ieee homeHost) (called .ieee 0) t later = []) :=
  ⟨_, rfl, sockets_run .ieee homeHost home _ both home_fresh rfl 0⟩

/-! ### Beacons by the clock -/

/-- What a peer has sent. -/
def sentBy (i : ℕ) (s : Lan) : List Flight := s.air.filter (·.sender = i)

/-- Peer `i` goes on advertising, and its clock does not go back. -/
def Steady (i : ℕ) (s : Lan) : ℕ × Call → Prop
  | (j, .startAdvertising ..) => j ≠ i
  | (j, .stopAdvertising) => j ≠ i
  | (j, .poll now _) => j = i → (s.peer i).lastPoll ≤ now
  | _ => True

/-- What a flight or a peer says of a server, the players apart that are there now. -/
def offer (port : UInt16) (server : LanDiscovery) : UInt16 × UInt16 × Bytes × UInt32 :=
  (port, server.gamePort, server.serverName, server.maxPlayers)

/-- Peer `i` has advertised in `t` since `s`, and its beacons were sent by the clock. -/
structure OnTime (i : ℕ) (s t : Lan) : Prop where
  advertising : (t.peer i).advertising = true
  valid : (t.peer i).socketValid = true
  interval : (t.peer i).advertInterval = (s.peer i).advertInterval
  offered : offer (t.peer i).discoveryPort (t.peer i).toLanDiscovery =
    offer (s.peer i).discoveryPort (s.peer i).toLanDiscovery
  clock : (s.peer i).lastPoll ≤ (t.peer i).lastPoll
  left : 0 ≤ (t.peer i).advertAccumulator
  timed : 0 < (s.peer i).advertInterval → (t.peer i).advertAccumulator =
    rest (s.peer i).advertInterval
      ((s.peer i).advertAccumulator + ((t.peer i).lastPoll - (s.peer i).lastPoll))
  sent : 0 < (s.peer i).advertInterval → ∃ beacons, t.sentBy i = s.sentBy i ++ beacons ∧
    beacons.length = wholes (s.peer i).advertInterval
      ((s.peer i).advertAccumulator + ((t.peer i).lastPoll - (s.peer i).lastPoll)) ∧
    ∀ f ∈ beacons, offer f.port f.server = offer (s.peer i).discoveryPort (s.peer i).toLanDiscovery

section
variable {host : ℕ → Host} {s t u : Lan} {i : ℕ} {l : ℕ × Call}

/-- What changes neither the timer of the peer nor what it has sent. -/
theorem OnTime.congr (h : OnTime i s t) (hsent : u.sentBy i = t.sentBy i)
    (hpeer : ∃ players queue listening callback, u.peer i = { t.peer i with
      currentPlayers := players
      queue := queue
      listening := listening
      hasBeaconCb := callback }) : OnTime i s u := by
  obtain ⟨players, queue, listening, callback, hpeer⟩ := hpeer
  have hlast : (u.peer i).lastPoll = (t.peer i).lastPoll := by rw [hpeer]
  have hleft : (u.peer i).advertAccumulator = (t.peer i).advertAccumulator := by rw [hpeer]
  refine ⟨?_, ?_, ?_, ?_, ?_, ?_, ?_, ?_⟩
  · rw [hpeer]
    exact h.advertising
  · rw [hpeer]
    exact h.valid
  · rw [hpeer]
    exact h.interval
  · rw [hpeer]
    exact h.offered
  · rw [hlast]
    exact h.clock
  · rw [hleft]
    exact h.left
  · rw [hleft, hlast]
    exact h.timed
  · rw [hsent, hlast]
    exact h.sent

theorem sentBy_set (peer : LanPeer) : (s.set i peer).sentBy i = s.sentBy i := rfl

theorem sentBy_append (flights : List Flight) (peer : LanPeer) (j : ℕ) :
    ({ s.set j peer with air := s.air ++ flights } : Lan).sentBy i =
      s.sentBy i ++ flights.filter (·.sender = i) := List.filter_append ..

theorem sentBy_step_ne (h : s.step .exact host l = some t) (hne : i ≠ l.1) : t.sentBy i = s.sentBy i := by
  obtain ⟨j, call⟩ := l
  cases call with
  | poll now turns =>
    obtain ⟨out, -, rfl⟩ := Option.map_eq_some_iff.mp h
    rw [sentBy_append, List.filter_eq_nil_iff.mpr, List.append_nil]
    intro f hf
    obtain ⟨packet, -, rfl⟩ := List.mem_map.mp hf
    exact fun hj => hne (of_decide_eq_true hj).symm
  | arrive =>
    obtain ⟨out, -, rfl⟩ := Option.map_eq_some_iff.mp h
    rfl
  | _ =>
    cases h
    rfl

theorem onTime_poll {now : ℚ} {turns : ℕ} (h : OnTime i s t) (hnow : (t.peer i).lastPoll ≤ now)
    (hstep : t.step .exact host (i, .poll now turns) = some u) : OnTime i s u := by
  obtain ⟨out, hpoll, rfl⟩ := Option.map_eq_some_iff.mp hstep
  obtain ⟨left, k, -, hout, -, -⟩ := poll_spec hpoll
  have hpos : 0 < (t.peer i).advertInterval :=
    (isSome_poll_iff h.advertising h.valid h.left hnow).mp ⟨turns, by rw [hpoll]; rfl⟩
  obtain ⟨hleft, hpackets⟩ := poll_timed h.advertising h.valid hpos hpoll
  rw [h.interval] at hpos hleft hpackets
  have hself : ({ t.set i out.1 with
      air := t.air ++ out.2.1.map fun packet =>
        (⟨i, (t.peer i).discoveryPort, packet, (t.peer i).toLanDiscovery⟩ : Flight) } : Lan).peer i =
      out.1 := peer_set_self _
  have hlast : out.1.lastPoll = now := by rw [hout]
  have helapsed : (s.peer i).advertAccumulator + (now - (s.peer i).lastPoll) =
      (s.peer i).advertAccumulator + ((t.peer i).lastPoll - (s.peer i).lastPoll) +
        (now - (t.peer i).lastPoll) := by ring
  have hdt : 0 ≤ now - (t.peer i).lastPoll := sub_nonneg.mpr hnow
  have hnonneg : 0 ≤ out.1.advertAccumulator := by
    rw [hleft]
    exact rest_nonneg hpos (add_nonneg h.left hdt)
  rw [h.timed hpos] at hleft hpackets
  rw [rest_rest_add hpos hdt, ← helapsed] at hleft
  refine ⟨?_, ?_, ?_, ?_, ?_, ?_, ?_, ?_⟩
  · rw [hself, hout]
    exact h.advertising
  · rw [hself, hout]
    exact h.valid
  · rw [hself, hout]
    exact h.interval
  · rw [hself, hout]
    exact h.offered
  · rw [hself, hlast]
    exact h.clock.trans hnow
  · rw [hself]
    exact hnonneg
  · intro _
    rw [hself, hlast, hleft]
  · intro _
    obtain ⟨beacons, hsent, hlength, hoffers⟩ := h.sent hpos
    rw [hself, hlast, sentBy_append, hsent, hpackets, List.map_replicate, List.filter_replicate,
      if_pos (decide_eq_true rfl), List.append_assoc]
    refine ⟨_, rfl, ?_, fun f hf => ?_⟩
    · rw [List.length_append, List.length_replicate, hlength, helapsed]
      exact (wholes_rest_add hpos hdt).symm
    · rcases List.mem_append.mp hf with hf | hf
      · exact hoffers f hf
      · rw [List.eq_of_mem_replicate hf]
        exact h.offered

theorem onTime_step (h : OnTime i s t) (hsteady : Steady i t l) (hstep : t.step .exact host l = some u) :
    OnTime i s u := by
  by_cases hi : i = l.1
  · obtain ⟨j, call⟩ := l
    obtain rfl : i = j := hi
    cases call with
    | startAdvertising => exact absurd rfl hsteady
    | stopAdvertising => exact absurd rfl hsteady
    | poll now turns => exact onTime_poll h (hsteady rfl) hstep
    | setCurrentPlayers count =>
      cases hstep
      exact h.congr (sentBy_set _) ⟨count, _, _, _, peer_set_self _⟩
    | startListening opened discoveryPort =>
      cases hstep
      have hpeer : ((t.peer i).startListening opened discoveryPort).1 =
          { t.peer i with listening := true } := by
        unfold startListening
        rw [h.valid]
        rfl
      rw [hpeer]
      exact h.congr (sentBy_set _) ⟨_, _, true, _, peer_set_self _⟩
    | stopListening =>
      cases hstep
      have hpeer : (t.peer i).stopListening = { t.peer i with listening := false } := by
        unfold stopListening
        exact if_neg (by simp [h.advertising])
      rw [hpeer]
      exact h.congr (sentBy_set _) ⟨_, _, false, _, peer_set_self _⟩
    | onBeaconReceived callback =>
      cases hstep
      exact h.congr (sentBy_set _) ⟨_, _, _, callback, peer_set_self _⟩
    | arrive n broadcast =>
      obtain ⟨f, -, rfl⟩ := Option.map_eq_some_iff.mp hstep
      exact h.congr (sentBy_set _) ⟨_, _, _, _, peer_set_self _⟩
  · exact h.congr (sentBy_step_ne hstep hi) ⟨_, _, _, _, peer_step_ne hstep hi⟩

theorem onTime_run {ls : List (ℕ × Call)} (h : OnTime i s t)
    (hsteady : Run.Admits (step .exact host) (Steady i) t ls)
    (hrun : Run.exec (step .exact host) t ls = some u) :
    OnTime i s u :=
  Run.invariant (Run.of_exec ls hrun hsteady) h fun _ _ _ h hok hstep => onTime_step h hok hstep

/-- In exact arithmetic the beacons of a peer that advertises depend on the time that has passed since it
was last polled before, and not on the polls in between; each says what the peer was told to. A poll
returns if and only if the interval is positive. -/
theorem beacons_sent (host : ℕ → Host) (s t u : Lan) (i : ℕ) (discoveryPort gamePort : UInt16)
    (serverName : Bytes) (maxPlayers : UInt32) (interval : ℚ)
    (hstart : s.step .exact host
      (i, .startAdvertising true discoveryPort gamePort serverName maxPlayers interval) = some t)
    (run : List (ℕ × Call)) (hsteady : Run.Admits (step .exact host) (Steady i) t run)
    (hrun : Run.exec (step .exact host) t run = some u) :
    (0 < interval → ∃ beacons, u.sentBy i = s.sentBy i ++ beacons ∧
      beacons.length = wholes interval ((u.peer i).lastPoll - (s.peer i).lastPoll) ∧
      ∀ f ∈ beacons, f.port = discoveryPort ∧ f.server.gamePort = gamePort ∧
        f.server.serverName = serverName.take 255 ∧ f.server.maxPlayers = maxPlayers) ∧
    ∀ now, (u.peer i).lastPoll ≤ now →
      ((∃ turns, (u.step .exact host (i, .poll now turns)).isSome) ↔ 0 < interval) := by
  obtain ⟨peer, hpeer, rfl⟩ : ∃ peer, peer =
      ((s.peer i).startAdvertising true discoveryPort gamePort serverName maxPlayers interval).1 ∧
      s.set i peer = t := ⟨_, rfl, Option.some.inj hstart⟩
  have hself : (s.set i peer).peer i = peer := peer_set_self _
  have hinterval : ((s.set i peer).peer i).advertInterval = interval := by rw [hself, hpeer]; rfl
  have hacc : ((s.set i peer).peer i).advertAccumulator = 0 := by rw [hself, hpeer]; rfl
  have hlast : ((s.set i peer).peer i).lastPoll = (s.peer i).lastPoll := by rw [hself, hpeer]; rfl
  have h : OnTime i (s.set i peer) u := by
    refine onTime_run ⟨?_, ?_, rfl, rfl, le_rfl, hacc.ge, fun hpos => ?_, fun hpos => ?_⟩ hsteady hrun
    · rw [hself, hpeer]
      rfl
    · rw [hself, hpeer]
      rfl
    · rw [sub_self, add_zero, rest_of_lt hpos (hacc.trans_lt hpos)]
    · refine ⟨[], (List.append_nil _).symm, ?_, nofun⟩
      rw [sub_self, add_zero, wholes_of_lt hpos (hacc.trans_lt hpos)]
      rfl
  constructor
  · intro hpos
    obtain ⟨beacons, hsent, hlength, hoffers⟩ := h.sent (hinterval ▸ hpos)
    rw [hinterval, hacc, hlast, zero_add] at hlength
    refine ⟨beacons, hsent, hlength, fun f hf => ?_⟩
    have hoffer := hoffers f hf
    rw [hself, hpeer] at hoffer
    simpa [offer, startAdvertising, createSocket] using hoffer
  · intro now hnow
    rw [← hinterval, ← h.interval, ← isSome_poll_iff h.advertising h.valid h.left hnow]
    exact exists_congr fun turns => by rw [step, Option.isSome_map]

/-- Peer 0 is polled after 2.5 s and has sent two beacons then. -/
def morning : List (ℕ × Call) := [(0, .poll (5 / 2) 9), (1, .startListening true 34590)]

theorem beacons_sent_home : ∃ t u, home.step .exact homeHost
      (0, .startAdvertising true 34590 34567 [72, 105] 8 1) = some t ∧
    Run.exec (step .exact homeHost) t morning = some u ∧
    ((0 < (1 : ℚ) → ∃ beacons, u.sentBy 0 = home.sentBy 0 ++ beacons ∧
      beacons.length = wholes 1 ((u.peer 0).lastPoll - (home.peer 0).lastPoll) ∧
      ∀ f ∈ beacons, f.port = 34590 ∧ f.server.gamePort = 34567 ∧
        f.server.serverName = List.take 255 [72, 105] ∧ f.server.maxPlayers = 8) ∧
    ∀ now, (u.peer 0).lastPoll ≤ now →
      ((∃ turns, (u.step .exact homeHost (0, .poll now turns)).isSome) ↔ 0 < (1 : ℚ))) := by
  have hstart : home.step .exact homeHost (0, .startAdvertising true 34590 34567 [72, 105] 8 1) =
    some _ := rfl
  have hmorning : ((home.step .exact homeHost (0, .startAdvertising true 34590 34567 [72, 105] 8 1)).bind
      fun t => Run.exec (step .exact homeHost) t morning).isSome := by decide +kernel
  obtain ⟨u, hu⟩ := Option.isSome_iff_exists.mp hmorning
  rw [hstart] at hu
  have hnow : ((home.set 0 ((home.peer 0).startAdvertising true 34590 34567 [72, 105] 8 1).1).peer
      0).lastPoll ≤ 5 / 2 := by decide +kernel
  exact ⟨_, u, hstart, hu, beacons_sent homeHost home _ u 0 34590 34567 [72, 105] 8 1 hstart morning
    ⟨fun _ => hnow, fun _ _ => ⟨trivial, fun _ _ => trivial⟩⟩ hu⟩

end

/-! ### Beacons by the queue -/

/-- Peer `j` goes on listening. -/
def Hears (j : ℕ) : ℕ × Call → Prop
  | (i, .startAdvertising ..) => i ≠ j
  | (i, .stopListening) => i ≠ j
  | (i, .onBeaconReceived callback) => i = j → callback = true
  | _ => True

/-- The beacons that wait for the next poll of a peer. -/
def waiting (j : ℕ) (s : Lan) : List Beacon := (s.peer j).queue.filterMap beaconOf

/-- A peer that is to be called back. -/
structure Listens (j : ℕ) (s : Lan) : Prop where
  sound : s.Sound
  listening : (s.peer j).listening = true
  callback : (s.peer j).hasBeaconCb = true

section
variable {ar : Arith} {host : ℕ → Host} {s t : Lan} {j : ℕ} {l : ℕ × Call}

theorem Listens.valid (h : Listens j s) : (s.peer j).socketValid = true := by
  rw [(h.sound.peers j).socket, h.listening, Bool.or_true]

/-- A poll of a peer that listens: all that waited is called for. -/
theorem poll_listens (h : Listens j s) {now : ℚ} {turns : ℕ} {out : LanPeer × List Bytes × List Beacon}
    (hpoll : (s.peer j).poll ar now turns = some out) :
    out.1.queue = [] ∧ out.1.listening = true ∧ out.1.hasBeaconCb = true ∧ out.2.2 = s.waiting j := by
  obtain ⟨left, k, -, hout, -, hbeacons⟩ := poll_spec hpoll
  rw [if_pos h.listening, receiveBeacons_whole (h.sound.peers j).waiting h.valid h.callback]
    at hout hbeacons
  rw [hout]
  exact ⟨rfl, h.listening, h.callback, hbeacons⟩

theorem called_ne (h : j ≠ l.1) : s.called ar j l = [] := by
  obtain ⟨i, call⟩ := l
  cases call with
  | poll => exact if_neg fun hi => h hi.symm
  | _ => rfl

theorem reached_ne (h : j ≠ l.1) : s.reached host j l = [] := by
  obtain ⟨i, call⟩ := l
  cases call with
  | arrive => exact if_neg fun hi => h hi.symm
  | _ => rfl

/-- A call that leaves the queue of a peer alone. -/
theorem listens_quiet (ht : t.Sound) (hqueue : (t.peer j).queue = (s.peer j).queue)
    (hlistening : (t.peer j).listening = true) (hcallback : (t.peer j).hasBeaconCb = true)
    (hcalled : s.called ar j l = []) (hreached : s.reached host j l = []) :
    Listens j t ∧ s.called ar j l ++ t.waiting j = s.waiting j ++ s.reached host j l := by
  refine ⟨⟨ht, hlistening, hcallback⟩, ?_⟩
  rw [hcalled, hreached, List.append_nil, List.nil_append, waiting, hqueue]
  rfl

theorem listens_step (h : Listens j s) (hears : Hears j l) (hstep : s.step ar host l = some t) :
    Listens j t ∧ s.called ar j l ++ t.waiting j = s.waiting j ++ s.reached host j l := by
  have ht : t.Sound := sound_step h.sound hstep
  by_cases hj : j = l.1
  · obtain ⟨i, call⟩ := l
    obtain rfl : j = i := hj
    cases call with
    | startAdvertising => exact absurd rfl hears
    | stopListening => exact absurd rfl hears
    | poll now turns =>
      obtain ⟨out, hpoll, rfl⟩ := Option.map_eq_some_iff.mp hstep
      obtain ⟨hqueue, hlistening, hcallback, hbeacons⟩ := poll_listens h hpoll
      have hself : ((s.set j out.1).peer j) = out.1 := peer_set_self _
      refine ⟨⟨ht, ?_, ?_⟩, ?_⟩
      · rw [← hself] at hlistening
        exact hlistening
      · rw [← hself] at hcallback
        exact hcallback
      · have hcalled : s.called ar j (j, .poll now turns) = out.2.2 := by
          rw [called, if_pos rfl, hpoll]
          rfl
        have hwaiting : (s.set j out.1).waiting j = [] := by
          rw [waiting, hself, hqueue]
          rfl
        rw [hcalled, hbeacons]
        exact congrArg (s.waiting j ++ ·) hwaiting
    | arrive n broadcast =>
      obtain ⟨f, hf, rfl⟩ := Option.map_eq_some_iff.mp hstep
      obtain ⟨hmem, -⟩ := arriving_spec hf
      obtain ⟨hpacket, hname⟩ := h.sound.packets f hmem
      have hdata : (datagram host f broadcast).data = _ :=
        (data_datagram hpacket hname broadcast).trans hpacket
      have hbeacon := beaconOf_announced hname hdata
      have hreached : s.reached host j (j, .arrive n broadcast) =
          [f.server.announced (source host f broadcast)] := by
        rw [reached, if_pos rfl, hf]
        rfl
      refine ⟨⟨ht, ?_, ?_⟩, ?_⟩
      · rw [peer_set_self]
        exact h.listening
      · rw [peer_set_self]
        exact h.callback
      · rw [hreached, waiting, peer_set_self, List.filterMap_append, List.filterMap_cons, hbeacon]
        rfl
    | stopAdvertising =>
      cases hstep
      have hpeer : (s.peer j).stopAdvertising = { s.peer j with advertising := false } := by
        unfold stopAdvertising
        exact if_neg (by simp [h.listening])
      rw [hpeer] at ht ⊢
      refine listens_quiet ht ?_ ?_ ?_ rfl rfl
      · rw [peer_set_self]
      · rw [peer_set_self]
        exact h.listening
      · rw [peer_set_self]
        exact h.callback
    | startListening opened discoveryPort =>
      cases hstep
      have hpeer : ((s.peer j).startListening opened discoveryPort).1 =
          { s.peer j with listening := true } := by
        unfold startListening
        rw [h.valid]
        rfl
      rw [hpeer] at ht ⊢
      refine listens_quiet ht ?_ ?_ ?_ rfl rfl
      · rw [peer_set_self]
      · rw [peer_set_self]
      · rw [peer_set_self]
        exact h.callback
    | setCurrentPlayers count =>
      cases hstep
      refine listens_quiet ht ?_ ?_ ?_ rfl rfl
      · rw [peer_set_self]
        rfl
      · rw [peer_set_self]
        exact h.listening
      · rw [peer_set_self]
        exact h.callback
    | onBeaconReceived callback =>
      cases hstep
      refine listens_quiet ht ?_ ?_ ?_ rfl rfl
      · rw [peer_set_self]
        rfl
      · rw [peer_set_self]
        exact h.listening
      · rw [peer_set_self]
        exact hears rfl
  · have hpeer := peer_step_ne hstep hj
    refine listens_quiet ht ?_ ?_ ?_ (called_ne hj) (reached_ne hj)
    · rw [hpeer]
    · rw [hpeer]
      exact h.listening
    · rw [hpeer]
      exact h.callback

/-- In every run a peer that listens and has a callback is called back for the beacons that reach it, one
by one and in their order, each with what the server was when it sent it and where the packet came from;
those that have not been called for wait for the next poll, which leaves none. -/
theorem beacons_called (ar : Arith) (host : ℕ → Host) (s t u : Lan) (before : List (ℕ × Call))
    (hfresh : s.Fresh) (hbefore : Run.exec (step ar host) s before = some t) (j : ℕ)
    (hlistening : (t.peer j).listening = true)
    (hcallback : (t.peer j).hasBeaconCb = true) (run : List (ℕ × Call)) (hears : ∀ l ∈ run, Hears j l)
    (hrun : Run.exec (step ar host) t run = some u) :
    Run.gather (step ar host) (called ar j) t run ++ u.waiting j =
        t.waiting j ++ Run.gather (step ar host) (reached host j) t run ∧
      ∀ now turns v, u.step ar host (j, .poll now turns) = some v → v.waiting j = [] := by
  have hstep : ∀ s l t, Listens j s → Hears j l → s.step ar host l = some t →
      Listens j t ∧ s.called ar j l ++ t.waiting j = s.waiting j ++ s.reached host j l :=
    fun _ _ _ hs hl h => listens_step hs hl h
  have ht : Listens j t := ⟨sound_run hfresh.sound hbefore, hlistening, hcallback⟩
  have hok : Run.Admits (step ar host) (fun _ l => Hears j l) t run :=
    Run.Admits.of_forall (fun l hl _ => hears l hl) t
  have hu : Listens j u :=
    Run.invariant (Run.of_exec run hrun hok) ht fun s l t hs hl h => (hstep s l t hs hl h).1
  constructor
  · exact Run.gather_fifo (waiting j) (fun s l t hs hl h => (hstep s l t hs hl h).1)
      (fun s l t hs hl h => (hstep s l t hs hl h).2) ht hok hrun
  · intro now turns v hv
    obtain ⟨out, hpoll, rfl⟩ := Option.map_eq_some_iff.mp hv
    have hself : (u.set j out.1).peer j = out.1 := peer_set_self _
    show ((u.set j out.1).peer j).queue.filterMap beaconOf = []
    rw [hself, (poll_listens hu hpoll).1]
    rfl

end

/-- Peer 1 listens. -/
def listening : List (ℕ × Call) := [(1, .onBeaconReceived true), (1, .startListening true 34590)]

/-- The server on peer 0 is polled after 2.5 s, and the first of its beacons comes late. -/
def evening : List (ℕ × Call) :=
  [(0, .startAdvertising true 34590 34567 [72, 105] 8 1), (0, .poll (5 / 2) 9), (1, .arrive 1 true),
    (1, .poll 3 0), (1, .arrive 0 true)]

theorem beacons_called_home : ∃ t u, Run.exec (step .ieee homeHost) home listening = some t ∧
    Run.exec (step .ieee homeHost) t evening = some u ∧
    (Run.gather (step .ieee homeHost) (called .ieee 1) t evening ++ u.waiting 1 =
        t.waiting 1 ++ Run.gather (step .ieee homeHost) (reached homeHost 1) t evening ∧
      ∀ now turns v, u.step .ieee homeHost (1, .poll now turns) = some v → v.waiting 1 = []) := by
  have hlistening : Run.exec (step .ieee homeHost) home listening = some _ := rfl
  have hevening : ((Run.exec (step .ieee homeHost) home listening).bind
      fun t => Run.exec (step .ieee homeHost) t evening).isSome := by decide +kernel
  obtain ⟨u, hu⟩ := Option.isSome_iff_exists.mp hevening
  rw [hlistening] at hu
  exact ⟨_, u, hlistening, hu, beacons_called .ieee homeHost home _ u listening home_fresh hlistening 1
    rfl rfl evening (by simp [evening, Hears]) hu⟩

end Lan

end CampelloNet
