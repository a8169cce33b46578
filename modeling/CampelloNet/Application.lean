import CampelloNet.Transport.Address
import Mathlib.Algebra.Order.Field.Rat

/-!
# Calls into the game

The names shared by the managers, and the calls they make into the game: the callbacks of
`NetworkManager`, the two bridges and the handlers of `RpcManager`. A manager returns the calls it
makes in order; what the game answers is an argument of the function that asks. Calls that only ask
(`serialize_entity`, the interest filter) are not listed.
-/

namespace CampelloNet

open Lib Transport

abbrev ClientId := UInt64
abbrev NetworkId := UInt64
abbrev PrefabId := UInt32
/-- `std::uintptr_t` of a 64-bit platform. -/
abbrev EntityHandle := UInt64

/-- What an RPC handler is told about the call. -/
structure RpcParams where
  sender : ClientId := 0
  serverTimestamp : ℚ := 0
  senderRtt : ℚ := 0
  deriving DecidableEq

inductive AppCall
  | onConnected (client : ClientId)
  | onDisconnected (client : ClientId)
  | onData (client : ClientId) (data : Bytes)
  | onApproval (address : Address) (authData : Bytes)
  | spawn (prefab : PrefabId) (netId : NetworkId) (initData : Bytes)
  | destroy (handle : EntityHandle)
  | deserializeEntity (netId : NetworkId) (data : Bytes)
  | snapshotReceived (netId : NetworkId) (data : Bytes)
  | rpc (rpcId : UInt16) (params : RpcParams) (args : Bytes)
  deriving DecidableEq

namespace AppCall

/-- What a call is about: connections and RPCs, user messages, which entities exist, or their
state. -/
inductive Kind
  | notice
  | data
  | lifecycle
  | state
  deriving DecidableEq

def kind : AppCall → Kind
  | onConnected _ | onDisconnected _ | onApproval _ _ | rpc _ _ _ => .notice
  | onData _ _ => .data
  | spawn _ _ _ | destroy _ => .lifecycle
  | deserializeEntity _ _ | snapshotReceived _ _ => .state

/-- A call of `deserialize_entity`. -/
def IsDeserialize : AppCall → Prop
  | deserializeEntity _ _ => True
  | _ => False

instance : DecidablePred IsDeserialize
  | deserializeEntity _ _ => isTrue trivial
  | onConnected _ | onDisconnected _ | onData _ _ | onApproval _ _ | spawn _ _ _ | destroy _
  | snapshotReceived _ _ | rpc _ _ _ => isFalse id

theorem IsDeserialize.kind {c : AppCall} (h : c.IsDeserialize) : c.kind = .state := by
  cases c with
  | deserializeEntity _ _ => rfl
  | _ => cases h

theorem not_isDeserialize {c : AppCall} {k : Kind} (h : c.kind = k) (hk : k ≠ .state) :
    ¬c.IsDeserialize := fun hd => hk (h.symm.trans hd.kind)

end AppCall

end CampelloNet
