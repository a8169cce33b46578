import CampelloNet.Application
import CampelloNet.Lib.Keyed

/-!
# Remote procedure calls

`RpcManager`: the packets it builds and where it sends them, and what it does with one that arrives.
A handler is known by its id and its authority; that it is invoked is a call into the game. The
arguments of a call are the bytes of its stream.
-/

namespace CampelloNet

open Lib

inductive RpcAuthority
  | anyone
  | serverOnly
  deriving DecidableEq

namespace Rpc

/-- `RpcManager::TokenBucket` -/
structure TokenBucket where
  ratePerSec : ℚ := 0
  burst : ℚ := 0
  tokens : ℚ := 0
  lastUpdate : ℚ := 0

/-- The bucket after a request at `now`, and whether the request is let through. -/
def TokenBucket.take (now : ℚ) (b : TokenBucket) : TokenBucket × Bool :=
  if b.ratePerSec > 0 then
    let tokens := min b.burst (b.tokens + b.ratePerSec * (now - b.lastUpdate))
    if tokens < 1 then ({ b with tokens := tokens, lastUpdate := now }, false)
    else ({ b with tokens := tokens - 1, lastUpdate := now }, true)
  else (b, true)

end Rpc

open Rpc

structure RpcManager where
  hasNet : Bool := false
  hasEntityMgr : Bool := false
  /-- 0 for no limit -/
  maxPayloadSize : ℕ := 0
  handlers : List (UInt16 × RpcAuthority) := []
  rpcRateBuckets : List (UInt16 × TokenBucket) := []

namespace RpcManager

def registerHandler (rpcId : UInt16) (authority : RpcAuthority) (rpc : RpcManager) : RpcManager :=
  { rpc with handlers := upsert Prod.fst (rpcId, authority) rpc.handlers }

def unregisterHandler (rpcId : UInt16) (rpc : RpcManager) : RpcManager :=
  { rpc with handlers := rpc.handlers.filter fun h => h.1 ≠ rpcId }

def setRpcRateLimit (rpcId : UInt16) (maxPerSec burst now : ℚ) (rpc : RpcManager) : RpcManager :=
  let bucket := ⟨max 0 maxPerSec, max 0 burst, max 0 burst, now⟩
  { rpc with rpcRateBuckets := upsert Prod.fst (rpcId, bucket) rpc.rpcRateBuckets }

/-- The system message of a call, empty if the arguments are too long. -/
def buildRpcPacket (rpcId : UInt16) (args : Bytes) (rpc : RpcManager) : Bytes :=
  if rpc.maxPayloadSize > 0 ∧ args.length > rpc.maxPayloadSize then []
  else [0xCA, 0xFE, 0x22] ++ be16 rpcId ++ args

/-- What the manager is told when a packet is handed to it: the clock, `network_time()` and the
sender's round trip. -/
structure ReceiveEnv where
  now : ℚ
  networkTime : ℚ
  clientRtt : ℚ

def paramsOf (env : ReceiveEnv) (sender : ClientId) (rpc : RpcManager) : RpcParams :=
  if rpc.hasNet then ⟨sender, env.networkTime, env.clientRtt⟩ else { sender := sender }

def onReceive (env : ReceiveEnv) (sender : ClientId) (data : Bytes) (rpc : RpcManager) :
    RpcManager × List AppCall :=
  if data.length < 2 then (rpc, [])
  else if rpc.maxPayloadSize > 0 ∧ data.length - 2 > rpc.maxPayloadSize then (rpc, [])
  else
    let rpcId := readBe16 data
    match lookup Prod.fst rpcId rpc.handlers with
    | none => (rpc, [])
    | some (_, authority) =>
      if authority = .serverOnly ∧ sender ≠ 0 then (rpc, [])
      else
        let params := rpc.paramsOf env sender
        match lookup Prod.fst rpcId rpc.rpcRateBuckets with
        | none => (rpc, [.rpc rpcId params (data.drop 2)])
        | some (_, bucket) =>
          let (bucket, admitted) := bucket.take env.now
          ({ rpc with rpcRateBuckets := upsert Prod.fst (rpcId, bucket) rpc.rpcRateBuckets },
            if admitted then [.rpc rpcId params (data.drop 2)] else [])

end RpcManager

end CampelloNet
