import CampelloNet.Transport.Udp.CallSpec
import CampelloNet.Lib.Run

/-!
# A client and its server

A client takes the first of its connections for the one with its server. Every datagram with the
right protocol id gets a connection, whoever sent it, and connections are erased from the front as
from anywhere else: a client talks to its server as long as no poll leaves a stranger in front,
which is what `Loyal` asks of each.
-/

namespace CampelloNet.Transport.Udp

open Lib

/-! ### The first connection -/

/-- Whom a client takes for its server. -/
def Impl.front (impl : Impl) : Option Address := (impl.connections.map Connection.address).head?

theorem front_of_addresses {impl impl' : Impl}
    (h : impl'.connections.map Connection.address = impl.connections.map Connection.address) :
    impl'.front = impl.front := by
  unfold Impl.front
  rw [h]

/-- A call of a public method by a client that stays one. -/
inductive ClientCall
  | send (env : Env) (data : Bytes) (r : PacketReliability)
  | sendWithPriority (env : Env) (address : Address) (data : Bytes) (r : PacketReliability)
      (priority : UInt8)
  | poll (env : Env) (t : Time) (arrivals : List Arrival)
  | popReceive (maxLength : Nat)
  | setConnectionBandwidthLimit (address : Address) (bytesPerSecond : UInt32)
  | setChannelBandwidthLimit (address : Address) (r : PacketReliability) (bytesPerSecond : UInt32)

section
variable (P : Platform)

def clientStep (impl : Impl) : ClientCall → Option Impl
  | .send env data r => some (Udp.send env data r impl).1
  | .sendWithPriority env address data r priority =>
    some (Udp.sendWithPriority env address data r priority impl).1
  | .poll env t arrivals => (Udp.poll P env t arrivals impl).map Prod.fst
  | .popReceive maxLength => some (Udp.popReceive maxLength impl).1
  | .setConnectionBandwidthLimit address n => some (Udp.setConnectionBandwidthLimit address n impl)
  | .setChannelBandwidthLimit address r n => some (Udp.setChannelBandwidthLimit address r n impl)

/-- The connections as `cleanup_connections` finds them during a poll. -/
def beforeCleanup (env : Env) (t : Time) (arrivals : List Arrival) (impl : Impl) :
    Option (List Connection) :=
  (receiveLoop P impl arrivals).map fun out => (service (out.1.io env) t out.1.connections).1

/-- When a poll comes to erase connections, the first that has not expired is the server's, or all
of them have expired. -/
def Loyal (server : Address) (impl : Impl) : ClientCall → Prop
  | .poll env t arrivals => ∀ conns ∈ beforeCleanup P env t arrivals impl,
      ∀ conn ∈ conns.find? (fun c => !c.expired t), conn.address = server
  | _ => True

end

section
variable {P : Platform} {impl impl' : Impl}

theorem front_putConnection {conn conn' : Connection} {address : Address}
    (hfind : findConnection impl address = some conn) (haddr : conn'.address = conn.address) :
    (putConnection impl conn').front = impl.front := by
  apply front_of_addresses
  have hmem : conn'.address ∈ impl.connections.map Connection.address := by
    rw [haddr]
    exact List.mem_map_of_mem (lookup_mem hfind)
  exact (map_key_upsert conn' impl.connections).trans (if_pos hmem)

theorem front_sendWithPriority (env : Env) (address : Address) (data : Bytes)
    (r : PacketReliability) (priority : UInt8) :
    (sendWithPriority env address data r priority impl).1.mode = impl.mode ∧
      (sendWithPriority env address data r priority impl).1.socketOpen = impl.socketOpen ∧
        (sendWithPriority env address data r priority impl).1.front = impl.front := by
  unfold sendWithPriority
  rcases hfind : findConnection impl address with _ | conn
  · exact ⟨rfl, rfl, rfl⟩
  · exact ⟨rfl, rfl, front_putConnection hfind (sendToConnection_address _ conn data r priority)⟩

theorem front_setConnectionBandwidthLimit (address : Address) (n : UInt32) :
    (setConnectionBandwidthLimit address n impl).mode = impl.mode ∧
      (setConnectionBandwidthLimit address n impl).socketOpen = impl.socketOpen ∧
        (setConnectionBandwidthLimit address n impl).front = impl.front := by
  unfold setConnectionBandwidthLimit
  rcases hfind : findConnection impl address with _ | conn
  · exact ⟨rfl, rfl, rfl⟩
  · exact ⟨rfl, rfl, front_putConnection hfind rfl⟩

theorem front_setChannelBandwidthLimit (address : Address) (r : PacketReliability) (n : UInt32) :
    (setChannelBandwidthLimit address r n impl).mode = impl.mode ∧
      (setChannelBandwidthLimit address r n impl).socketOpen = impl.socketOpen ∧
        (setChannelBandwidthLimit address r n impl).front = impl.front := by
  unfold setChannelBandwidthLimit
  rcases hfind : findConnection impl address with _ | conn
  · exact ⟨rfl, rfl, rfl⟩
  · exact ⟨rfl, rfl, front_putConnection hfind rfl⟩

theorem front_popReceive (maxLength : Nat) :
    (popReceive maxLength impl).1.mode = impl.mode ∧
      (popReceive maxLength impl).1.socketOpen = impl.socketOpen ∧
        (popReceive maxLength impl).1.front = impl.front := by
  unfold popReceive
  split <;> exact ⟨rfl, rfl, rfl⟩

end

/-! ### Polls that are loyal -/

section
variable {P : Platform} {impl impl' : Impl} {server : Address}

theorem front_putConnection_some (conn : Connection) (h : impl.front = some server) :
    (putConnection impl conn).front = some server := by
  unfold Impl.front at h ⊢
  rw [show (putConnection impl conn).connections = upsert Connection.address conn impl.connections
    from rfl, map_key_upsert]
  split_ifs
  · exact h
  · rw [List.head?_append, h]
    rfl

theorem front_receiveOne {a : Arrival} {ds : List Datagram}
    (h : receiveOne P impl a = some (impl', ds)) (hfront : impl.front = some server) :
    impl'.front = some server := by
  rw [receiveOne_eq] at h
  split at h
  · cases h
    exact hfront
  · rename_i hdr payload hpacket
    by_cases hid : hdr.protocolId = PacketHeader.PROTOCOL_ID
    · obtain ⟨conn, -, -, rfl, -⟩ | ⟨-, channel, deliver, impl₁, -, rfl, hdel⟩ :=
        processPacket_cases h hid
      · exact front_putConnection_some conn hfront
      · have hput := front_putConnection_some
          ((ackedConnection a.env impl a.sender hdr).setChannel hdr.channel channel) hfront
        rcases hdel with ⟨-, hpay⟩ | ⟨-, rfl⟩
        · unfold Impl.front
          rw [(processPayload_frame hpay).1]
          exact hput
        · exact hput
    · rw [processPacket, if_pos hid] at h
      cases h
      exact hfront

theorem front_receiveLoop {arrivals : List Arrival} {ds : List Datagram}
    (h : receiveLoop P impl arrivals = some (impl', ds)) (hfront : impl.front = some server) :
    impl'.front = some server := by
  induction arrivals generalizing impl ds with
  | nil =>
    cases h
    exact hfront
  | cons a arrivals ih =>
    obtain ⟨⟨mid, ds₁⟩, hone, h⟩ := Option.bind_eq_some_iff.mp h
    obtain ⟨⟨last, ds₂⟩, hrest, h⟩ := Option.bind_eq_some_iff.mp h
    cases h
    exact ih hrest (front_receiveOne hone hfront)

/-- While the server's connection stays, strangers do no harm. -/
theorem loyal_of_alive {env : Env} {t : Time} {arrivals : List Arrival}
    (hfront : impl.front = some server)
    (halive : ∀ conns ∈ beforeCleanup P env t arrivals impl,
      ∀ conn ∈ lookup Connection.address server conns, conn.expired t = false) :
    Loyal P server impl (.poll env t arrivals) := by
  intro conns hconns conn hconn
  have hexpired := halive conns hconns
  obtain ⟨⟨mid, ds⟩, hloop, rfl⟩ := Option.map_eq_some_iff.mp hconns
  have hmid := front_receiveLoop hloop hfront
  have hfront' : ((service (mid.io env) t mid.connections).1.map Connection.address).head? =
      some server := by
    rw [service_eq]
    dsimp only
    rw [map_key_map fun c => (serviceConnection_spec (mid.io env) t c).1.address]
    exact hmid
  rcases hs : (service (mid.io env) t mid.connections).1 with _ | ⟨first, rest⟩
  · rw [hs] at hfront'
    cases hfront'
  · rw [hs, List.map_cons, List.head?_cons, Option.some.injEq] at hfront'
    dsimp only at hexpired hconn
    rw [hs] at hexpired hconn
    have hkept := hexpired first (by rw [lookup_cons, if_pos hfront']; rfl)
    rw [List.find?_cons_of_pos (by simp [hkept])] at hconn
    rw [← Option.some.inj hconn]
    exact hfront'

end

/-! ### Runs -/

def serverAddress : Address := .ofIPv4 10 0 0 1 7777

end CampelloNet.Transport.Udp
