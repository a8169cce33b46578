import CampelloNet.Manager.LocalDelivery
import CampelloNet.Serialization.BitStream

/-!
# Invocations that are too long

Each way to invoke an RPC comes in two forms, one for a stream of arguments and one for the values
themselves. The packet of arguments that are too long is empty, and it is up to each of the ten to
look for that before it sends. All do but `invoke_broadcast` with a stream (`oversized_invoked`).
-/

namespace CampelloNet

open Lib Transport Serialization
open List hiding lookup

/-- The arguments of an invocation: a stream, or values, each with what its type's `serialize` does
with it. -/
inductive RpcArgs
  | stream (args : BitStream)
  | values (args : List (BitStream → BitStream))

namespace RpcArgs

def toStream : RpcArgs → BitStream
  | stream args => args
  | values args => args.foldl (fun stream serialize => serialize stream) {}

def isStream : RpcArgs → Bool
  | stream _ => true
  | values _ => false

end RpcArgs

namespace NetworkManager

variable {σ : Type} (T : ℕ → ITransport σ)

/-- An invocation with values, which are serialized into a stream first. -/
def invokeRpcValues (target : RpcTarget) (rpcId : UInt16) (args : List (BitStream → BitStream))
    (net : NetworkManager σ) : NetworkManager σ :=
  match net.rpcManager with
  | none => net
  | some rpc =>
    let stream : BitStream := args.foldl (fun stream serialize => serialize stream) {}
    let packet := rpc.buildRpcPacket rpcId stream.span
    let owner (entity : NetworkId) := (net.entityManager.map fun em => em.owner entity).getD 0
    if !rpc.hasNet then net
    else
      match target with
      | .client client => net.sendRpc T client packet
      | .server => net.sendRpc T 0 packet
      | .broadcast =>
        if packet.isEmpty then net else net.broadcast T packet .reliableOrdered 0
      | .owner entity =>
        if !rpc.hasEntityMgr || owner entity == 0 then net
        else net.sendRpc T (owner entity) packet
      | .notOwner entity =>
        if !rpc.hasEntityMgr || packet.isEmpty then net
        else net.broadcast T packet .reliableOrdered (owner entity)

/-- The ten ways to invoke an RPC. -/
def invoke (target : RpcTarget) (rpcId : UInt16) (net : NetworkManager σ) :
    RpcArgs → NetworkManager σ
  | .stream args => net.invokeRpc T target rpcId args.span
  | .values args => net.invokeRpcValues T target rpcId args

/-- What an invocation passes to `send` or `broadcast`. With values an empty packet is passed to
neither. -/
def invoked (target : RpcTarget) (rpcId : UInt16) (args : RpcArgs) (net : NetworkManager σ) :
    List Parcel :=
  (net.emitted (.invokeRpc target rpcId args.toStream.span)).filter fun p =>
    args.isStream || !p.data.isEmpty

section
variable {T} (net : NetworkManager σ)

/-! ### What is passed on -/

theorem mem_rpcParcels {client : ClientId} {packet : Bytes} {p : Parcel}
    (hp : p ∈ net.rpcParcels client packet) : p.data = packet ∧ packet ≠ [] := by
  unfold rpcParcels at hp
  split_ifs at hp with hempty
  · simp at hp
  · simp_all
  · simp_all
  · simp at hp

theorem filter_rpcParcels (client : ClientId) (packet : Bytes) :
    (net.rpcParcels client packet).filter (fun p => !p.data.isEmpty) =
      net.rpcParcels client packet := by
  apply filter_eq_self.mpr
  intro p hp
  obtain ⟨hdata, hpacket⟩ := mem_rpcParcels net hp
  simp [hdata, hpacket]

theorem post_unless_empty (target : Target) (packet : Bytes) :
    (if packet.isEmpty then net else Parcel.post T ⟨target, packet, .reliableOrdered⟩ net) =
      net.postAll T ([⟨target, packet, .reliableOrdered⟩].filter fun p => !p.data.isEmpty) := by
  cases packet <;> rfl

/-- An invocation sends what it passes on, one after the other, and does nothing else. -/
theorem invoke_eq (target : RpcTarget) (rpcId : UInt16) (args : RpcArgs) :
    net.invoke T target rpcId args = net.postAll T (net.invoked target rpcId args) := by
  cases args with
  | stream args =>
    have hall : net.invoked target rpcId (.stream args) =
        net.emitted (.invokeRpc target rpcId args.span) := by
      simp [invoked, RpcArgs.isStream, RpcArgs.toStream]
    rw [hall]
    exact invokeRpc_eq target rpcId args.span
  | values args =>
    show net.invokeRpcValues T target rpcId args = net.postAll T ((net.emitted (.invokeRpc target rpcId
      (args.foldl (fun stream serialize => serialize stream) ({} : BitStream)).span)).filter
        fun p => !p.data.isEmpty)
    unfold invokeRpcValues emitted
    rcases net.rpcManager with _ | rpc
    · rfl
    · dsimp only
      generalize rpc.buildRpcPacket rpcId _ = packet
      by_cases hnet : (!rpc.hasNet) = true
      · rw [if_pos hnet, if_pos hnet]
        rfl
      · rw [if_neg hnet, if_neg hnet]
        cases target with
        | client client => rw [filter_rpcParcels]; exact sendRpc_eq _ _
        | server => rw [filter_rpcParcels]; exact sendRpc_eq _ _
        | broadcast => exact post_unless_empty net (.others 0) packet
        | owner entity =>
          dsimp only
          split_ifs
          · rfl
          · rw [filter_rpcParcels]
            exact sendRpc_eq _ _
        | notOwner entity =>
          dsimp only
          split_ifs with hskip
          · rfl
          · rw [← post_unless_empty, if_neg (by simp_all)]
            rfl

/-! ### Arguments that are too long -/

theorem buildRpcPacket_eq_nil_iff (rpc : RpcManager) (rpcId : UInt16) (args : Bytes) :
    rpc.buildRpcPacket rpcId args = [] ↔
      0 < rpc.maxPayloadSize ∧ rpc.maxPayloadSize < args.length := by
  unfold RpcManager.buildRpcPacket
  split_ifs with hlong
  · exact iff_of_true rfl hlong
  · exact iff_of_false (by simp) hlong

theorem rpcParcels_nil (client : ClientId) : net.rpcParcels client [] = [] := if_pos rfl

/-- Arguments that are too long are passed on by none of nine ways to invoke. -/
theorem invoked_of_oversized {rpc : RpcManager} (hrpc : net.rpcManager = some rpc)
    {target : RpcTarget} {rpcId : UInt16} {args : RpcArgs}
    (hpacket : rpc.buildRpcPacket rpcId args.toStream.span = [])
    (hother : ¬(args.isStream = true ∧ target = .broadcast ∧ rpc.hasNet = true)) :
    net.invoked target rpcId args = [] := by
  unfold invoked emitted
  rw [hrpc]
  dsimp only
  rw [hpacket]
  by_cases hnet : rpc.hasNet = true
  · rw [if_neg (by simp [hnet])]
    cases target with
    | client client => simp [rpcParcels_nil]
    | server => simp [rpcParcels_nil]
    | broadcast => simp_all
    | owner entity => simp [rpcParcels_nil]
    | notOwner entity => simp
  · rw [if_pos (by simp [hnet])]
    rfl

/-- The broadcast of a stream that is too long is that of an empty packet. -/
theorem invoked_broadcast_stream {rpc : RpcManager} (hrpc : net.rpcManager = some rpc)
    (hnet : rpc.hasNet = true) {rpcId : UInt16} {args : RpcArgs}
    (hpacket : rpc.buildRpcPacket rpcId args.toStream.span = []) (hstream : args.isStream = true) :
    net.invoked .broadcast rpcId args = [⟨.others 0, [], .reliableOrdered⟩] := by
  unfold invoked emitted
  rw [hrpc]
  dsimp only
  rw [hpacket, if_neg (by simp [hnet])]
  simp [hstream]

end

/-- Where arguments are longer than allowed, an invocation calls neither `send` nor `broadcast` and
changes nothing, if and only if it is not the `invoke_broadcast` with a stream of a manager that has its
network manager. -/
theorem oversized_invoked (net : NetworkManager σ) {rpc : RpcManager}
    (hrpc : net.rpcManager = some rpc) (hmax : 0 < rpc.maxPayloadSize) (target : RpcTarget)
    (rpcId : UInt16) (args : RpcArgs) (hlong : rpc.maxPayloadSize < args.toStream.span.length) :
    net.invoke T target rpcId args = net.postAll T (net.invoked target rpcId args) ∧
      ((net.invoked target rpcId args = [] ∧ net.invoke T target rpcId args = net) ↔
        ¬(args.isStream = true ∧ target = .broadcast ∧ rpc.hasNet = true)) := by
  have hposted := invoke_eq (T := T) net target rpcId args
  have hpacket := (buildRpcPacket_eq_nil_iff rpc rpcId args.toStream.span).mpr ⟨hmax, hlong⟩
  refine ⟨hposted, ?_⟩
  constructor
  · rintro ⟨hnone, -⟩ ⟨hstream, rfl, hnet⟩
    rw [invoked_broadcast_stream net hrpc hnet hpacket hstream] at hnone
    cases hnone
  · intro hother
    have hnone := invoked_of_oversized net hrpc hpacket hother
    refine ⟨hnone, ?_⟩
    rw [hposted, hnone]
    rfl

/-- A server whose RPC manager allows one byte of arguments, with a client of its own. -/
def narrow : NetworkManager LoopbackHub :=
  (({ world := {}, rpcManager := some { hasNet := true, hasEntityMgr := true, maxPayloadSize := 1 } } :
    NetworkManager LoopbackHub).start loopback serverConfig 0).1.addLocalClient.1

theorem oversized_invoked_values :
    narrow.invoked .broadcast 7 (.values [BitStream.writeUint8 1, BitStream.writeUint8 2]) = [] :=
  ((oversized_invoked loopback narrow rfl (by decide) .broadcast 7
    (.values [BitStream.writeUint8 1, BitStream.writeUint8 2]) (by decide)).2.mpr fun h => nomatch h.1).1

/-- The same two bytes as a stream: the client is handed an empty message. -/
theorem oversized_broadcast : ∃ args : BitStream, args.span = [1, 2] ∧
    (narrow.rpcManager.map RpcManager.maxPayloadSize) = some 1 ∧
    narrow.invoked .broadcast 7 (.stream args) = [⟨.others 0, [], .reliableOrdered⟩] ∧
    (narrow.invoke loopback .broadcast 7 (.stream args)).popMessage.2 = some ⟨1, []⟩ :=
  ⟨⟨[1, 2], 16, 0⟩, by decide, by decide, rfl, by decide +kernel⟩

end NetworkManager

end CampelloNet
