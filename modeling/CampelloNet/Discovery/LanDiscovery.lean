import CampelloNet.Transport.Address

/-!
# Beacons on the local network

`LanDiscovery`: a server broadcasts beacons, a listener takes the datagrams from its socket one after the
other, all into the same buffer, and calls back for the beacons among them. A datagram that is too short
for the fixed fields ends the loop instead of being passed over; `beacons_received_iff` says what that
costs.
-/

namespace CampelloNet

open Lib Transport

/-- What the methods use of a `LanDiscovery`. -/
structure LanDiscovery where
  socketValid : Bool := false
  gamePort : UInt16 := 0
  serverName : Bytes := []
  maxPlayers : UInt32 := 0
  currentPlayers : UInt32 := 0
  hasBeaconCb : Bool := false

namespace LanDiscovery

def MAGIC : UInt32 := 0x43414D50

def VERSION : UInt8 := 1

structure Beacon where
  serverAddress : Address
  serverName : Bytes
  maxPlayers : UInt32
  currentPlayers : UInt32

/-- The packet of `send_beacon`. -/
def beaconPacket (disco : LanDiscovery) : Bytes :=
  let nameLen := min disco.serverName.length 255
  be32 MAGIC ++ [VERSION] ++ be16 disco.gamePort ++ be32 disco.maxPlayers ++
    be32 disco.currentPlayers ++ [UInt8.ofNat nameLen] ++ disco.serverName.take nameLen

/-- The size of the buffer of `receive_beacons`. -/
def BUF_SIZE : ℕ := 1024

/-- A datagram that waits on the socket, from an IPv4 address. -/
structure Datagram where
  ip : UInt8 × UInt8 × UInt8 × UInt8
  data : Bytes
  fits : data.length ≤ BUF_SIZE

/-- `recvfrom` overwrites the start of the buffer. -/
def overwrite (data buffer : Bytes) : Bytes := data ++ buffer.drop data.length

/-- One turn of the loop, from the received bytes on. What is not a beacon is passed over. -/
def parseBeacon (ip : UInt8 × UInt8 × UInt8 × UInt8) (received : ℕ) (buffer : Bytes) : Option Beacon :=
  let byte := fun i => buffer.getD i 0
  let magic := ofBe32 (byte 0) (byte 1) (byte 2) (byte 3)
  if magic ≠ MAGIC then none
  else if byte 4 ≠ VERSION then none
  else
    let gamePort := ofBe16 (byte 5) (byte 6)
    let maxPlayers := ofBe32 (byte 7) (byte 8) (byte 9) (byte 10)
    let currentPlayers := ofBe32 (byte 11) (byte 12) (byte 13) (byte 14)
    let offset := 15
    if offset ≥ received then none
    else
      let nameLen := (byte offset).toNat
      let offset := offset + 1
      if offset + nameLen > received then none
      else
        let (a, b, c, d) := ip
        some {
          serverAddress := .ofIPv4 a b c d gamePort
          serverName := (buffer.drop offset).take nameLen
          maxPlayers := maxPlayers
          currentPlayers := currentPlayers }

/-- The loop of `receive_beacons`: the beacons of the calls, and the datagrams that are left. -/
def receiveLoop : List Datagram → Bytes → List Beacon × List Datagram
  | [], _ => ([], [])
  | d :: queue, buffer =>
    let buffer := overwrite d.data buffer
    if d.data.length < 13 then ([], queue)
    else
      let (beacons, left) := receiveLoop queue buffer
      match parseBeacon d.ip d.data.length buffer with
      | none => (beacons, left)
      | some beacon => (beacon :: beacons, left)

def receiveBeacons (disco : LanDiscovery) (queue : List Datagram) : List Beacon × List Datagram :=
  if ¬disco.socketValid ∨ ¬disco.hasBeaconCb then ([], queue)
  else receiveLoop queue (List.replicate BUF_SIZE 0)

/-! ### What is to be received -/

/-- The beacon of a server's packet. -/
def announced (server : LanDiscovery) (ip : UInt8 × UInt8 × UInt8 × UInt8) : Beacon where
  serverAddress := .ofIPv4 ip.1 ip.2.1 ip.2.2.1 ip.2.2.2 server.gamePort
  serverName := server.serverName
  maxPlayers := server.maxPlayers
  currentPlayers := server.currentPlayers

/-- The datagram is the packet of a server, and the beacon has its fields. What follows the name does not
count. -/
def Announces (d : Datagram) (beacon : Beacon) : Prop :=
  ∃ server : LanDiscovery, server.serverName.length ≤ 255 ∧ server.beaconPacket <+: d.data ∧
    beacon = server.announced d.ip

/-- One call for each datagram that announces a server, in their order, and no other. -/
inductive Calls : List Datagram → List Beacon → Prop
  | nil : Calls [] []
  | beacon {d : Datagram} {queue : List Datagram} {beacon : Beacon} {beacons : List Beacon} :
      Announces d beacon → Calls queue beacons → Calls (d :: queue) (beacon :: beacons)
  | other {d : Datagram} {queue : List Datagram} {beacons : List Beacon} :
      (∀ beacon, ¬Announces d beacon) → Calls queue beacons → Calls (d :: queue) beacons

/-- The queue is consumed, with the calls that it asks for. -/
def Received (queue : List Datagram) (result : List Beacon × List Datagram) : Prop :=
  Calls queue result.1 ∧ result.2 = []

/-! ### One datagram -/

theorem length_beaconPacket (server : LanDiscovery) :
    server.beaconPacket.length = 16 + min server.serverName.length 255 := by
  simp [beaconPacket]
  omega

/-- A packet is parsed to the fields that were encoded, whatever stands behind it. -/
theorem parseBeacon_packet {server : LanDiscovery} (hname : server.serverName.length ≤ 255)
    (ip : UInt8 × UInt8 × UInt8 × UInt8) {received : ℕ}
    (hreceived : server.beaconPacket.length ≤ received) (behind : Bytes) :
    parseBeacon ip received (server.beaconPacket ++ behind) = some (server.announced ip) := by
  rw [length_beaconPacket, min_eq_left hname] at hreceived
  have hlen : (UInt8.ofNat server.serverName.length).toNat = server.serverName.length :=
    UInt8.toNat_ofNat_of_lt' (by change _ < 256; omega)
  obtain ⟨a, b, c, d⟩ := ip
  unfold beaconPacket
  rw [min_eq_left hname]
  dsimp only
  rw [List.take_length]
  unfold be32 be16
  simp only [List.cons_append, List.nil_append]
  unfold parseBeacon
  simp only [List.getD_cons_zero, List.getD_cons_succ, List.drop_succ_cons, List.drop_zero,
    ofBe32_be32, ofBe16_be16, hlen]
  rw [if_neg (not_not.mpr rfl), if_neg (not_not.mpr rfl), if_neg (by omega), if_neg (by omega),
    List.take_left]
  rfl

/-- The bytes of the fixed fields, and what is behind them. -/
theorem exists_header {data : Bytes} (h : 16 ≤ data.length) :
    ∃ b0 b1 b2 b3 b4 b5 b6 b7 b8 b9 b10 b11 b12 b13 b14 b15 rest, data =
      [b0, b1, b2, b3] ++ [b4] ++ [b5, b6] ++ [b7, b8, b9, b10] ++ [b11, b12, b13, b14] ++ [b15] ++
        rest := by
  rcases data with _ | ⟨b0, _ | ⟨b1, _ | ⟨b2, _ | ⟨b3, _ | ⟨b4, _ | ⟨b5, _ | ⟨b6, _ | ⟨b7, _ | ⟨b8, _ |
    ⟨b9, _ | ⟨b10, _ | ⟨b11, _ | ⟨b12, _ | ⟨b13, _ | ⟨b14, _ | ⟨b15, rest⟩⟩⟩⟩⟩⟩⟩⟩⟩⟩⟩⟩⟩⟩⟩⟩
  case cons.cons.cons.cons.cons.cons.cons.cons.cons.cons.cons.cons.cons.cons.cons.cons =>
    exact ⟨b0, b1, b2, b3, b4, b5, b6, b7, b8, b9, b10, b11, b12, b13, b14, b15, rest, rfl⟩
  all_goals
    simp only [List.length_cons, List.length_nil] at h
    omega

/-- What is parsed was encoded, and nothing but the received bytes decides it. -/
theorem announces_of_parseBeacon {d : Datagram} {stale : Bytes} {beacon : Beacon}
    (h : parseBeacon d.ip d.data.length (d.data ++ stale) = some beacon) : Announces d beacon := by
  obtain ⟨⟨a, b, c, e⟩, data, hfits⟩ := d
  have hlong : 16 ≤ data.length := by
    by_contra hshort
    unfold parseBeacon at h
    dsimp only at h
    split_ifs at h
    omega
  obtain ⟨b0, b1, b2, b3, b4, b5, b6, b7, b8, b9, b10, b11, b12, b13, b14, b15, rest, rfl⟩ :=
    exists_header hlong
  unfold parseBeacon at h
  simp only [List.cons_append, List.nil_append, List.getD_cons_zero, List.getD_cons_succ,
    List.drop_succ_cons, List.drop_zero, List.length_cons, ne_eq] at h
  split_ifs at h with hmagic hversion hoffset hname
  have hlen : b15.toNat ≤ rest.length := by omega
  rw [List.take_append_of_le_length hlen] at h
  obtain rfl := Option.some.inj h
  have hbyte := b15.toNat_lt
  refine ⟨{ gamePort := ofBe16 b5 b6, serverName := rest.take b15.toNat
            maxPlayers := ofBe32 b7 b8 b9 b10, currentPlayers := ofBe32 b11 b12 b13 b14 },
    ?_, ?_, rfl⟩
  · rw [List.length_take]
    omega
  · have hmin : min (rest.take b15.toNat).length 255 = b15.toNat := by
      rw [List.length_take]
      omega
    unfold beaconPacket
    dsimp only
    rw [hmin, ← hmagic, ← hversion, be32_ofBe32, be16_ofBe16, be32_ofBe32, be32_ofBe32,
      UInt8.ofNat_toNat, List.take_take, min_self]
    exact (List.prefix_append_right_inj _).mpr (List.take_prefix _ _)

/-- The buffer decides what the datagram alone decides. -/
theorem parseBeacon_eq_some_iff {d : Datagram} {stale : Bytes} {beacon : Beacon} :
    parseBeacon d.ip d.data.length (d.data ++ stale) = some beacon ↔ Announces d beacon := by
  constructor
  · exact announces_of_parseBeacon
  · rintro ⟨server, hname, ⟨behind, hdata⟩, rfl⟩
    rw [← hdata, List.append_assoc]
    exact parseBeacon_packet hname d.ip (by rw [List.length_append]; omega) _

/-! ### The queue -/

theorem length_of_announces {d : Datagram} {beacon : Beacon} (h : Announces d beacon) :
    13 ≤ d.data.length := by
  obtain ⟨server, -, hprefix, -⟩ := h
  have hle := hprefix.length_le
  rw [length_beaconPacket] at hle
  omega

theorem forall_dropLast_cons {d : Datagram} {queue : List Datagram} {p : Datagram → Prop} :
    (∀ d' ∈ (d :: queue).dropLast, p d') ↔ (queue ≠ [] → p d) ∧ ∀ d' ∈ queue.dropLast, p d' := by
  cases queue <;> simp

theorem receiveLoop_short {d : Datagram} {queue : List Datagram} {buffer : Bytes}
    (h : d.data.length < 13) : receiveLoop (d :: queue) buffer = ([], queue) := by
  unfold receiveLoop
  exact if_pos h

/-- A turn that goes on, by whether the datagram announces a server. -/
theorem receiveLoop_long {d : Datagram} (queue : List Datagram) (buffer : Bytes)
    (h : 13 ≤ d.data.length) :
    let rest := receiveLoop queue (overwrite d.data buffer)
    (∃ beacon, Announces d beacon ∧
        receiveLoop (d :: queue) buffer = (beacon :: rest.1, rest.2)) ∨
      (∀ beacon, ¬Announces d beacon) ∧ receiveLoop (d :: queue) buffer = rest := by
  intro rest
  have hparse : ∀ beacon, parseBeacon d.ip d.data.length (overwrite d.data buffer) = some beacon ↔
      Announces d beacon := fun _ => parseBeacon_eq_some_iff
  rw [receiveLoop, if_neg (by omega)]
  cases hresult : parseBeacon d.ip d.data.length (overwrite d.data buffer) with
  | none =>
    refine Or.inr ⟨fun beacon hannounces => ?_, rfl⟩
    rw [(hparse beacon).mpr hannounces] at hresult
    cases hresult
  | some beacon => exact Or.inl ⟨beacon, (hparse beacon).mp hresult, rfl⟩

/-- Where no datagram but the last is short, the loop goes to the end of the queue. -/
theorem received_receiveLoop {queue : List Datagram} (buffer : Bytes)
    (h : ∀ d ∈ queue.dropLast, 13 ≤ d.data.length) : Received queue (receiveLoop queue buffer) := by
  induction queue generalizing buffer with
  | nil => exact ⟨.nil, rfl⟩
  | cons d queue ih =>
    obtain ⟨hfirst, hrest⟩ := forall_dropLast_cons.mp h
    by_cases hshort : d.data.length < 13
    · obtain rfl : queue = [] := by
        by_contra hne
        exact absurd (hfirst hne) (by omega)
      rw [receiveLoop_short hshort]
      exact ⟨.other (fun beacon hannounces => absurd (length_of_announces hannounces) (by omega)) .nil,
        rfl⟩
    · obtain ⟨hcalls, hleft⟩ := ih (overwrite d.data buffer) hrest
      rcases receiveLoop_long queue buffer (not_lt.mp hshort) with
        ⟨beacon, hannounces, hloop⟩ | ⟨hother, hloop⟩
      · rw [hloop]
        exact ⟨.beacon hannounces hcalls, hleft⟩
      · rw [hloop]
        exact ⟨.other hother hcalls, hleft⟩

/-- A short datagram that is not the last leaves those behind it in the queue. -/
theorem long_of_receiveLoop {queue : List Datagram} {buffer : Bytes}
    (h : (receiveLoop queue buffer).2 = []) : ∀ d ∈ queue.dropLast, 13 ≤ d.data.length := by
  induction queue generalizing buffer with
  | nil => simp
  | cons d queue ih =>
    rw [forall_dropLast_cons]
    by_cases hshort : d.data.length < 13
    · rw [receiveLoop_short hshort] at h
      obtain rfl : queue = [] := h
      exact ⟨fun hne => absurd rfl hne, by simp⟩
    · refine ⟨fun _ => not_lt.mp hshort, ?_⟩
      rcases receiveLoop_long queue buffer (not_lt.mp hshort) with
        ⟨beacon, -, hloop⟩ | ⟨-, hloop⟩
      · rw [hloop] at h
        exact ih h
      · rw [hloop] at h
        exact ih h

/-- One call of `receive_beacons` consumes the queue and calls back for the beacons in it, if and only
if no datagram but the last has fewer than 13 bytes. -/
theorem beacons_received_iff {disco : LanDiscovery} (hsocket : disco.socketValid)
    (hcallback : disco.hasBeaconCb) (queue : List Datagram) :
    Received queue (disco.receiveBeacons queue) ↔ ∀ d ∈ queue.dropLast, 13 ≤ d.data.length := by
  have hloop : disco.receiveBeacons queue = receiveLoop queue (List.replicate BUF_SIZE 0) := by
    unfold receiveBeacons
    simp [hsocket, hcallback]
  rw [hloop]
  exact ⟨fun h => long_of_receiveLoop h.2, received_receiveLoop _⟩

/-- A server with a name of two bytes. -/
def lobby : LanDiscovery := { gamePort := 34567, serverName := [72, 105], maxPlayers := 8 }

/-- Its packet, from another host of the network. -/
def lobbyBeacon : Datagram := ⟨(192, 168, 1, 2), lobby.beaconPacket, by decide⟩

/-- Something else on the port. -/
def junk : Datagram := ⟨(192, 168, 1, 3), [0xDE, 0xAD, 0xBE, 0xEF], by decide⟩

def listener : LanDiscovery := { socketValid := true, hasBeaconCb := true }

/-- The junk behind the beacons does no harm. -/
theorem beacons_received_iff_lobby : Received [lobbyBeacon, lobbyBeacon, junk]
    (listener.receiveBeacons [lobbyBeacon, lobbyBeacon, junk]) :=
  (beacons_received_iff rfl rfl [lobbyBeacon, lobbyBeacon, junk]).mpr (by decide)

/-- The junk in front of the beacon ends the loop. -/
theorem not_received_behind_junk :
    ¬Received [junk, lobbyBeacon] (listener.receiveBeacons [junk, lobbyBeacon]) := by
  rintro ⟨-, hleft⟩
  have hloop : (listener.receiveBeacons [junk, lobbyBeacon]).2 = [lobbyBeacon] := rfl
  rw [hloop] at hleft
  exact absurd hleft (List.cons_ne_nil _ _)

end LanDiscovery

end CampelloNet
