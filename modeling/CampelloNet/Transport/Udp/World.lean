import CampelloNet.Transport.Udp.CallSpec
import CampelloNet.Lib.Run
import Mathlib.Data.Fintype.Basic

/-!
# Two ends and the network between them

A `World` is the transports of two ends, every datagram either of them has handed to the network so
far, and a log of what happened to the messages between them. A call of a run is one call of a
public method at one end. The network is in the arguments of `poll`: any datagrams may be waiting
at an end's socket, in any order and number, and a run says which of them it admits.

`bind`, `connect` and `disconnect` are not calls of a run: each destroys every `Connection` of its
transport, and what is proved here is about connections that stay alive. A run may start in any
state that those calls lead to.
-/

namespace CampelloNet.Transport.Udp

open Lib

/-- The two ends of a connection. -/
inductive End
  | left
  | right
  deriving DecidableEq, Repr

namespace End

def peer : End → End
  | left => right
  | right => left

@[simp] theorem peer_peer (e : End) : e.peer.peer = e := by cases e <;> rfl

theorem peer_ne (e : End) : e.peer ≠ e := by cases e <;> decide

instance : Fintype End := ⟨{left, right}, fun e => by cases e <;> decide⟩

theorem eq_or_eq_peer (e x : End) : x = e ∨ x = e.peer := by cases e <;> cases x <;> decide

end End

/-- What happens to the messages between the two ends, by the end it happens at. -/
inductive Event
  /-- the end passed a payload for its peer to `send_to_connection` -/
  | handed (e : End) (ch : Fin 4) (data : Bytes)
  /-- `process_packet` pushed a payload from the peer into the end's receive queue -/
  | queued (e : End) (ch : Fin 4) (sequence : UInt16) (data : Bytes)
  /-- `process_acks` erased an entry of the end's pending list for its peer -/
  | erased (e : End) (ch : Fin 4) (p : Pending)

/-! ### The log -/

/-- The payloads that end `e` was given for channel `ch`. -/
def handedIn (log : List Event) (e : End) (ch : Fin 4) : List Bytes :=
  log.filterMap fun
    | .handed e' ch' data => if e' = e ∧ ch' = ch then some data else none
    | _ => none

/-- The payloads that end `e` received on channel `ch`, with their sequence numbers. -/
def queuedIn (log : List Event) (e : End) (ch : Fin 4) : List (UInt16 × Bytes) :=
  log.filterMap fun
    | .queued e' ch' sequence data => if e' = e ∧ ch' = ch then some (sequence, data) else none
    | _ => none

/-- The entries of channel `ch` that acknowledgements erased at end `e`. -/
def erasedIn (log : List Event) (e : End) (ch : Fin 4) : List Pending :=
  log.filterMap fun
    | .erased e' ch' p => if e' = e ∧ ch' = ch then some p else none
    | _ => none

section
variable (log log' : List Event) (e : End) (ch : Fin 4)

@[simp] theorem handedIn_append :
    handedIn (log ++ log') e ch = handedIn log e ch ++ handedIn log' e ch :=
  List.filterMap_append

@[simp] theorem queuedIn_append :
    queuedIn (log ++ log') e ch = queuedIn log e ch ++ queuedIn log' e ch :=
  List.filterMap_append

@[simp] theorem erasedIn_append :
    erasedIn (log ++ log') e ch = erasedIn log e ch ++ erasedIn log' e ch :=
  List.filterMap_append

end

/-- A log that says nothing about channel `ch` at end `e`. -/
structure Silent (log : List Event) (e : End) (ch : Fin 4) : Prop where
  handed : handedIn log e ch = []
  queued : queuedIn log e ch = []
  erased : erasedIn log e ch = []

theorem silent_nil (e : End) (ch : Fin 4) : Silent [] e ch := ⟨rfl, rfl, rfl⟩

theorem silent_handed {e x : End} {c ch : Fin 4} {data : Bytes} (h : ¬(e = x ∧ c = ch)) :
    Silent [.handed e c data] x ch := by
  refine ⟨?_, rfl, rfl⟩
  simp only [handedIn, List.filterMap_cons, if_neg h, List.filterMap_nil]

/-- What a packet from its peer on channel `ch` did to the messages at end `e`. -/
def packetEvents (e : End) (ch : Fin 4) (sequence : UInt16) (pending pending' : List Pending)
    (pushed : List ReceivedPacket) : List Event :=
  ((pending.filter fun p => p ∉ pending').map fun p => .erased e ch p) ++
    pushed.map fun pkt => .queued e ch sequence pkt.data

structure World where
  node : End → Impl
  /-- every datagram handed to the network, with the end that sent it -/
  wire : List (End × Datagram)
  log : List Event

namespace World

def handed (w : World) : End → Fin 4 → List Bytes := handedIn w.log

def queued (w : World) : End → Fin 4 → List (UInt16 × Bytes) := queuedIn w.log

def erased (w : World) : End → Fin 4 → List Pending := erasedIn w.log

/-- The world after a call at end `e` that left its transport as `impl`. -/
def put (w : World) (e : End) (impl : Impl) (ds : List Datagram) (events : List Event) : World where
  node := Function.update w.node e impl
  wire := w.wire ++ ds.map fun d => (e, d)
  log := w.log ++ events

section
variable (w : World) (e : End) (impl : Impl) (ds : List Datagram) (events : List Event)

@[simp] theorem node_put_self : (w.put e impl ds events).node e = impl := by simp [put]

@[simp] theorem node_put_peer : (w.put e impl ds events).node e.peer = w.node e.peer := by
  simp [put, e.peer_ne]

theorem mem_wire_put {x : End × Datagram} :
    x ∈ (w.put e impl ds events).wire ↔ x ∈ w.wire ∨ x.1 = e ∧ x.2 ∈ ds := by
  rcases x with ⟨y, d⟩
  simp only [put, List.mem_append, List.mem_map, Prod.mk.injEq]
  constructor
  · rintro (h | ⟨d', hd, rfl, rfl⟩)
    · exact .inl h
    · exact .inr ⟨rfl, hd⟩
  · rintro (h | ⟨rfl, hd⟩)
    · exact .inl h
    · exact .inr ⟨d, hd, rfl, rfl⟩

end

section
variable (P : Platform) (addr : End → Address)

/-- What one turn of the receive loop did to the messages at end `e`. -/
def arrivalEvents (e : End) (impl impl' : Impl) (a : Arrival) : List Event :=
  if a.sender = addr e.peer then
    match packet a.bytes with
    | none => []
    | some (hdr, _) =>
      packetEvents e hdr.channel hdr.sequence
        ((impl.conn a.sender).channels hdr.channel).pending
        ((impl'.conn a.sender).channels hdr.channel).pending
        (impl'.receiveQueue.drop impl.receiveQueue.length)
  else []

/-- One turn of the receive loop of a poll at end `e`. -/
def receive (w : World) (e : End) (a : Arrival) : Option World :=
  (receiveOne P (w.node e) a).map fun out =>
    w.put e out.1 out.2 (arrivalEvents addr e (w.node e) out.1 a)

def receiveAll (e : End) : World → List Arrival → Option World
  | w, [] => some w
  | w, a :: arrivals => (w.receive P addr e a).bind fun w => w.receiveAll e arrivals

/-- The rest of a poll at end `e`. -/
def finish (w : World) (e : End) (env : Env) (t : Time) : World :=
  w.put e (finishPoll env t (w.node e)).1 (finishPoll env t (w.node e)).2 []

/-- A call of a public method at one end; `sendTo` is `sendWithPriority` at priority 0. -/
inductive Call
  | send (e : End) (env : Env) (data : Bytes) (r : PacketReliability)
  | sendWithPriority (e : End) (env : Env) (address : Address) (data : Bytes)
      (r : PacketReliability) (priority : UInt8)
  | poll (e : End) (env : Env) (t : Time) (arrivals : List Arrival)
  | popReceive (e : End) (maxLength : Nat)
  | setConnectionBandwidthLimit (e : End) (address : Address) (bytesPerSecond : UInt32)
  | setChannelBandwidthLimit (e : End) (address : Address) (r : PacketReliability)
      (bytesPerSecond : UInt32)

/-- The world after a send at end `e`, to its peer if `toPeer`. -/
def sent (w : World) (e : End) (out : Impl × List Datagram × Bool) (toPeer : Prop)
    [Decidable toPeer] (data : Bytes) (r : PacketReliability) : World :=
  w.put e out.1 out.2.1 (if toPeer then [.handed e r.index data] else [])

def step (w : World) : Call → Option World
  | .send e env data r =>
    some (w.sent e (Udp.send env data r (w.node e)) (addr e.peer ∈ (w.node e).targets) data r)
  | .sendWithPriority e env address data r priority =>
    some (w.sent e (Udp.sendWithPriority env address data r priority (w.node e))
      (addr e.peer = address ∧ (findConnection (w.node e) address).isSome) data r)
  | .poll e env t arrivals =>
    if (w.node e).socketOpen = false then some w
    else (w.receiveAll P addr e arrivals).map fun w => w.finish e env t
  | .popReceive e maxLength => some (w.put e (Udp.popReceive maxLength (w.node e)).1 [] [])
  | .setConnectionBandwidthLimit e address n =>
    some (w.put e (Udp.setConnectionBandwidthLimit address n (w.node e)) [] [])
  | .setChannelBandwidthLimit e address r n =>
    some (w.put e (Udp.setChannelBandwidthLimit address r n (w.node e)) [] [])

theorem receiveAll_node (e : End) (w : World) (arrivals : List Arrival) :
    (w.receiveAll P addr e arrivals).map (fun w' => (w'.node e, w'.wire)) =
      (receiveLoop P (w.node e) arrivals).map fun out =>
        (out.1, w.wire ++ out.2.map fun d => (e, d)) := by
  induction arrivals generalizing w with
  | nil => simp [receiveAll, receiveLoop]
  | cons a arrivals ih =>
    rw [receiveAll, receive, receiveLoop]
    rcases receiveOne P (w.node e) a with _ | ⟨impl, ds⟩
    · rfl
    · simp only [Option.map_some, Option.bind_some, ih]
      rw [node_put_self, put]
      rcases hl : receiveLoop P impl arrivals with _ | ⟨impl', ds'⟩ <;> simp [hl]

theorem receiveAll_node_peer {e : End} {w w' : World} {arrivals : List Arrival}
    (h : w.receiveAll P addr e arrivals = some w') : w'.node e.peer = w.node e.peer := by
  induction arrivals generalizing w with
  | nil =>
    cases h
    rfl
  | cons a arrivals ih =>
    obtain ⟨w₁, h₁, h⟩ := Option.bind_eq_some_iff.mp h
    obtain ⟨out, -, rfl⟩ := Option.map_eq_some_iff.mp h₁
    rw [ih h, node_put_peer]

/-- A poll of a run is a poll of the end's transport. -/
theorem step_poll (w : World) (e : End) (env : Env) (t : Time) (arrivals : List Arrival) :
    (w.step P addr (.poll e env t arrivals)).map (fun w' => (w'.node e, w'.wire)) =
      (Udp.poll P env t arrivals (w.node e)).map fun out =>
        (out.1, w.wire ++ out.2.map fun d => (e, d)) := by
  rw [step, Udp.poll]
  split_ifs
  · simp
  · have h := receiveAll_node P addr e w arrivals
    rcases hw : w.receiveAll P addr e arrivals with _ | w' <;>
      rcases hl : receiveLoop P (w.node e) arrivals with _ | ⟨impl, ds⟩ <;>
      simp only [hw, hl, Option.map_none, Option.map_some, reduceCtorEq, Option.some.injEq,
        Prod.mk.injEq] at h
    · rfl
    · simp only [Option.map_some, finish, put, Function.update_self, h.1, h.2]
      simp

/-! ### Runs -/

/-- `Q` admits every arrival of a receive loop, at the world in which it is received. -/
def Along (Q : World → Arrival → Prop) (e : End) : World → List Arrival → Prop
  | _, [] => True
  | w, a :: arrivals => Q w a ∧ ∀ w' ∈ w.receive P addr e a, w'.Along Q e arrivals

/-- The network makes up no datagram of the peer's; other senders may send anything. -/
def Genuine (w : World) (e : End) (a : Arrival) : Prop :=
  a.sender = addr e.peer → (e.peer, ⟨addr e, a.bytes⟩) ∈ w.wire

/-- The rest of the poll does not erase the connection to the peer. -/
def Survives (w : World) (e : End) (env : Env) (t : Time) : Prop :=
  (findConnection (w.node e) (addr e.peer)).isSome →
    (findConnection ((w.finish e env t).node e) (addr e.peer)).isSome

/-- The calls of a run: messages of one packet on channel `ch`, arrivals that the network delivers
and that `Q` admits, and polls that keep the connection between the two ends alive. -/
def Admissible (ch : Fin 4) (Q : World → End → Arrival → Prop) (w : World) : Call → Prop
  | .send _ _ data r => r.index = ch → data.length ≤ MAX_PAYLOAD_SIZE
  | .sendWithPriority _ _ _ data r _ => r.index = ch → data.length ≤ MAX_PAYLOAD_SIZE
  | .poll e env t arrivals =>
    w.Along P addr (fun w a => w.Genuine addr e a ∧ Q w e a) e arrivals ∧
      ∀ w' ∈ w.receiveAll P addr e arrivals, w'.Survives addr e env t
  | _ => True

instance decidableAlong (Q : World → Arrival → Prop) [∀ w a, Decidable (Q w a)] (e : End) :
    ∀ (w : World) (arrivals : List Arrival), Decidable (w.Along P addr Q e arrivals)
  | _, [] => isTrue trivial
  | w, a :: arrivals =>
    have : DecidablePred fun w' : World => w'.Along P addr Q e arrivals := fun w' =>
      decidableAlong Q e w' arrivals
    inferInstanceAs
      (Decidable (Q w a ∧ ∀ w' ∈ w.receive P addr e a, w'.Along P addr Q e arrivals))

instance (w : World) (e : End) (a : Arrival) : Decidable (w.Genuine addr e a) :=
  inferInstanceAs (Decidable (_ → _))

instance (w : World) (e : End) (env : Env) (t : Time) : Decidable (w.Survives addr e env t) :=
  inferInstanceAs (Decidable (_ → _))

instance (ch : Fin 4) (Q : World → End → Arrival → Prop) [∀ w e a, Decidable (Q w e a)] (w : World) :
    ∀ c, Decidable (w.Admissible P addr ch Q c)
  | .send _ _ data r => inferInstanceAs (Decidable (r.index = ch → data.length ≤ MAX_PAYLOAD_SIZE))
  | .sendWithPriority _ _ _ data r _ =>
    inferInstanceAs (Decidable (r.index = ch → data.length ≤ MAX_PAYLOAD_SIZE))
  | .poll e env t arrivals => inferInstanceAs (Decidable
      (w.Along P addr (fun w a => w.Genuine addr e a ∧ Q w e a) e arrivals ∧
        ∀ w' ∈ w.receiveAll P addr e arrivals, w'.Survives addr e env t))
  | .popReceive _ _ => isTrue trivial
  | .setConnectionBandwidthLimit _ _ _ => isTrue trivial
  | .setChannelBandwidthLimit _ _ _ _ => isTrue trivial

/-- Nothing has been sent on channel `ch` between the two ends: the connections, where they exist,
are as new on that channel, and the network holds no packet of it. -/
structure Fresh (ch : Fin 4) (w : World) : Prop where
  ok : ∀ e, (w.node e).Ok
  view : ∀ e, (w.node e).view (addr e.peer) ch = {}
  wire : ∀ e d, (e, d) ∈ w.wire → d.dest = addr e.peer →
    ∀ hdr payload, packet d.bytes = some (hdr, payload) → hdr.channel ≠ ch
  log : w.log = []

/-- Whatever an acknowledgement erased at one end of channel `ch` was received at the other. -/
def NothingLost (w : World) (ch : Fin 4) : Prop :=
  ∀ e, ∀ p ∈ w.erased e ch, (p.sequence, p.data) ∈ w.queued e.peer ch

instance (w : World) (ch : Fin 4) : Decidable (w.NothingLost ch) :=
  inferInstanceAs (Decidable (∀ e, ∀ p ∈ w.erased e ch, _))

/-- Two ends that have just completed their handshake, and an empty network. -/
def connected : World where
  node e := { socketOpen := true, mode := .server
              connections := [{ address := addr e.peer, state := .connected }] }
  wire := []
  log := []

end

/-! ### Executions -/

/-- Two ends on one machine. -/
def localAddr : End → Address
  | .left => .inet 7001 #v[127, 0, 0, 1]
  | .right => .inet 7002 #v[127, 0, 0, 1]

/-- The shifts of a processor that uses the low five bits of the count. -/
def maskedShift : Platform := ⟨fun n => 1 <<< UInt32.ofNat (n % 32)⟩

/-- Every `sendto` succeeds. -/
def goodEnv (now : Time) : Env := ⟨now, fun _ => true⟩

/-- A user packet from the peer of `e`, under the acknowledgement of `channel`. -/
def userArrival (e : End) (ch : Fin 4) (channel : Channel) (sequence : UInt16) (data : Bytes)
    (now : Time) : Arrival :=
  ⟨localAddr e.peer, (userHeader ch channel sequence data.length).serialize ++ data, goodEnv now⟩

section
variable (addr : End → Address)

theorem fresh_connected (ch : Fin 4) : (connected addr).Fresh addr ch where
  ok e := ⟨List.nodup_singleton _, fun c hc => by
    obtain rfl := List.mem_singleton.mp hc
    exact fun h => by cases h⟩
  view e := by
    rw [Impl.view, Impl.conn, findConnection, connected, lookup_cons, if_pos rfl]
    rfl
  wire e d hd := by cases hd
  log := rfl

end

end World

end CampelloNet.Transport.Udp
