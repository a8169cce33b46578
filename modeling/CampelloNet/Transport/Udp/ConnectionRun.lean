import CampelloNet.Transport.Udp.Attempts
import CampelloNet.Transport.Udp.FragmentBounds

/-!
# Runs of one connection

What the public methods of a transport do with one of its connections: they send on it, take a packet
from its peer, service it in a poll, or set its limits. Every connection of a transport got to its state
by such steps, in any order (`mem_connections_of_run`).
-/

namespace CampelloNet.Transport.Udp

open Lib

inductive ConnectionCall
  | send (io : Io) (data : Bytes) (r : PacketReliability) (priority : UInt8)
  | receive (env : Env) (hdr : PacketHeader) (payload : Bytes)
  | service (io : Io) (t : Time)
  | limitConnection (bytesPerSecond : UInt32)
  | limitChannel (r : PacketReliability) (bytesPerSecond : UInt32)

/-- What `process_packet` makes of the sender's connection. -/
def receiveOn (env : Env) (conn : Connection) (hdr : PacketHeader) (payload : Bytes) : Connection :=
  if hdr.protocolId ≠ PacketHeader.PROTOCOL_ID then conn
  else
    let conn := processAcks env.now { conn with lastRecvTime := env.now } hdr.channel hdr.ack hdr.ackBits
    if hdr.packetType = PacketType.handshake.toUInt8 then
      if conn.state = .connecting then { conn with state := .connected } else conn
    else if hdr.packetType = PacketType.disconnect.toUInt8 then { conn with state := .disconnecting }
    else if hdr.packetType = PacketType.ack.toUInt8 then conn
    else conn.setChannel hdr.channel (acceptPacket (conn.channels hdr.channel) hdr payload).1

theorem receiveOn_address (env : Env) (conn : Connection) (hdr : PacketHeader) (payload : Bytes) :
    (receiveOn env conn hdr payload).address = conn.address := by
  have hacked := processAcks_address env.now { conn with lastRecvTime := env.now } hdr.channel hdr.ack
    hdr.ackBits
  rw [receiveOn]
  dsimp only
  split_ifs
  · rfl
  all_goals exact hacked

def connectionCall (conn : Connection) : ConnectionCall → Connection
  | .send io data r priority => (sendToConnection io conn data r priority).1
  | .receive env hdr payload => receiveOn env conn hdr payload
  | .service io t => (serviceConnection io t conn).1
  | .limitConnection n => { conn with globalBandwidthLimit := n }
  | .limitChannel r n =>
    conn.setChannel r.index { conn.channels r.index with bandwidthLimit := n }

/-- What the call hands to `send_raw`, keepalives apart. -/
def callLog (conn : Connection) : ConnectionCall → List Attempt
  | .send io data r priority => sendLog io conn data r priority
  | .service io t => if conn.state = .connected then resendPendingLog io t conn else []
  | .receive _ _ _ | .limitConnection _ | .limitChannel _ _ => []

def runConnection (conn : Connection) (calls : List ConnectionCall) : Connection :=
  calls.foldl connectionCall conn

def runLog : Connection → List ConnectionCall → List Attempt
  | _, [] => []
  | conn, c :: calls => callLog conn c ++ runLog (connectionCall conn c) calls

/-! ### The connections of a transport -/

/-- The connection got to its state by steps of one connection. -/
def Reached (conn : Connection) : Prop :=
  ∃ address now calls, conn = runConnection { address := address, lastRecvTime := now } calls

theorem reached_new (address : Address) (now : Time) :
    Reached { address := address, lastRecvTime := now } := ⟨address, now, [], rfl⟩

theorem Reached.call {conn : Connection} (h : Reached conn) (c : ConnectionCall) :
    Reached (connectionCall conn c) := by
  obtain ⟨address, now, calls, rfl⟩ := h
  exact ⟨address, now, calls ++ [c], by rw [runConnection, runConnection, List.foldl_concat]⟩

def AllReached (impl : Impl) : Prop := ∀ conn ∈ impl.connections, Reached conn

namespace AllReached

variable {impl impl' : Impl}

theorem of_eq (h : AllReached impl) (heq : impl'.connections = impl.connections) : AllReached impl' := by
  rw [AllReached, heq]
  exact h

theorem put (h : AllReached impl) {conn : Connection} (hconn : Reached conn) :
    AllReached (putConnection impl conn) := by
  intro conn' hconn'
  rcases mem_upsert hconn' with rfl | hmem
  · exact hconn
  · exact h conn' hmem

theorem getOrCreate (h : AllReached impl) (now : Time) (address : Address) :
    Reached (getOrCreateConnection impl now address) := by
  rw [getOrCreateConnection, findConnection]
  cases hfind : lookup Connection.address address impl.connections with
  | none => exact reached_new address now
  | some conn => exact h conn (lookup_mem hfind)

end AllReached

variable {P : Platform} {impl impl' : Impl}

theorem processPacket_receiveOn {env : Env} {sender : Address} {hdr : PacketHeader} {payload : Bytes}
    {ds : List Datagram} (h : processPacket P env impl sender hdr payload = some (impl', ds)) :
    impl'.connections =
      if hdr.protocolId ≠ PacketHeader.PROTOCOL_ID then impl.connections
      else (putConnection impl
        (receiveOn env (getOrCreateConnection impl env.now sender) hdr payload)).connections := by
  rw [processPacket] at h
  by_cases hid : hdr.protocolId ≠ PacketHeader.PROTOCOL_ID
  · rw [if_pos hid] at h ⊢
    cases h
    rfl
  rw [if_neg hid] at h
  rw [if_neg hid, receiveOn, if_neg hid]
  dsimp only at h ⊢
  rw [← ackedConnection]
  by_cases hhandshake : hdr.packetType = PacketType.handshake.toUInt8
  · rw [if_pos hhandshake] at h ⊢
    cases h
    rfl
  rw [if_neg hhandshake] at h ⊢
  by_cases hdisconnect : hdr.packetType = PacketType.disconnect.toUInt8
  · rw [if_pos hdisconnect] at h ⊢
    cases h
    rfl
  rw [if_neg hdisconnect] at h ⊢
  by_cases hack : hdr.packetType = PacketType.ack.toUInt8
  · rw [if_pos hack] at h ⊢
    cases h
    rfl
  rw [if_neg hack] at h ⊢
  split at h
  · obtain ⟨impl₁, hpayload, heq⟩ := Option.map_eq_some_iff.mp h
    cases heq
    exact (processPayload_frame hpayload).1
  · cases h
    rfl

theorem AllReached.turn (h : AllReached impl) {x : Turn} (hturn : Udp.turn P impl x = some impl') :
    AllReached impl' := by
  cases x with
  | receive a =>
    obtain ⟨out, hout, rfl⟩ := Option.map_eq_some_iff.mp hturn
    rw [receiveOne_eq] at hout
    split at hout
    · cases hout
      exact h
    · rename_i hdr payload _
      have hconns := processPacket_receiveOn hout
      split_ifs at hconns
      · exact h.of_eq hconns
      · exact (h.put ((h.getOrCreate a.env.now a.sender).call (.receive a.env hdr payload))).of_eq hconns
  | finish env t =>
    cases hturn
    intro conn hconn
    rw [finishPoll, service_eq] at hconn
    obtain ⟨conn', hconn', rfl⟩ := List.mem_map.mp (List.mem_of_mem_filter hconn)
    exact (h conn' hconn').call (.service (impl.io env) t)

theorem AllReached.call (h : AllReached impl) {c : Call} (hcall : Udp.call P impl c = some impl') :
    AllReached impl' := by
  cases c with
  | bind env opened =>
    cases hcall
    cases opened <;> exact fun _ hconn => nomatch hconn
  | connect env opened address =>
    cases hcall
    cases opened with
    | false => exact fun _ hconn => nomatch hconn
    | true =>
      intro conn hconn
      rw [List.mem_singleton.mp hconn]
      exact reached_new address env.now
  | disconnect env =>
    cases hcall
    exact fun _ hconn => nomatch hconn
  | send env data r =>
    cases hcall
    have hsend : ∀ conn ∈ impl.connections, Reached (sendToConnection (impl.io env) conn data r 0).1 :=
      fun conn hconn => (h conn hconn).call (.send (impl.io env) data r 0)
    intro conn hconn
    rw [Udp.send] at hconn
    split at hconn
    · rename_i _ conn₀ conns _ heq
      rcases List.mem_cons.mp hconn with rfl | hrest
      · exact hsend conn₀ (by rw [heq]; exact List.mem_cons_self)
      · exact h conn (by rw [heq]; exact List.mem_cons_of_mem _ hrest)
    · dsimp only at hconn
      rw [(sendEach_eq (impl.io env) data r _).1] at hconn
      obtain ⟨conn', hconn', rfl⟩ := List.mem_map.mp hconn
      exact hsend conn' hconn'
    · exact h conn hconn
  | sendWithPriority env address data r priority =>
    cases hcall
    rw [Udp.sendWithPriority]
    split
    · exact h
    · rename_i conn hfind
      exact h.put ((h conn (lookup_mem hfind)).call (.send (impl.io env) data r priority))
  | poll env t arrivals =>
    by_cases hclosed : impl.socketOpen = false
    · rw [Udp.call, Udp.poll, if_pos hclosed] at hcall
      cases hcall
      exact h
    · rw [Udp.call, exec_turn_poll P env t arrivals impl (by simpa using hclosed)] at hcall
      exact Run.invariant_exec hcall h fun _ _ _ hs hturn => hs.turn hturn
  | popReceive maxLength =>
    cases hcall
    rw [Udp.popReceive]
    split <;> exact h
  | setConnectionBandwidthLimit address n =>
    cases hcall
    rw [Udp.setConnectionBandwidthLimit]
    split
    · exact h
    · rename_i conn hfind
      exact h.put ((h conn (lookup_mem hfind)).call (.limitConnection n))
  | setChannelBandwidthLimit address r n =>
    cases hcall
    rw [Udp.setChannelBandwidthLimit]
    split
    · exact h
    · rename_i conn hfind
      exact h.put ((h conn (lookup_mem hfind)).call (.limitChannel r n))

/-- The connections of a transport take no steps but these. -/
theorem mem_connections_of_run {calls : List Call} (h : Run.exec (call P) {} calls = some impl)
    {conn : Connection} (hconn : conn ∈ impl.connections) : Reached conn := by
  have hall : AllReached impl := Run.invariant_exec h (fun _ hconn => nomatch hconn)
    fun _ _ _ hs hcall => hs.call hcall
  exact hall conn hconn

end CampelloNet.Transport.Udp
