import CampelloNet.Manager.Calls

/-!
# The packets of a poll

What every packet handled during a poll is required to satisfy, in the state in which it is handled,
and the rule that carries an invariant through the receive loops.
-/

namespace CampelloNet.NetworkManager

open Lib Transport

variable {σ : Type} (T : ℕ → ITransport σ)

section
variable (P : NetworkManager σ → PacketEnv → ℕ → Bytes → Address → Prop)

/-- `P` holds of every packet that the receive loop of transport `t` handles. -/
def PacketsFor (t : ℕ) : List PacketEnv → NetworkManager σ → Prop
  | [], _ => True
  | env :: envs, net =>
    ∀ packet ∈ ((T t).popReceive BUF_SIZE net.world).2,
      P { net with world := ((T t).popReceive BUF_SIZE net.world).1 } env t packet.1 packet.2 ∧
        PacketsFor t envs ({ net with world := ((T t).popReceive BUF_SIZE net.world).1 }.handlePacket
          T env t packet.1 packet.2)

/-- `P` holds of every packet that the receive loops of the transports handle. -/
def Packets : List ℕ → List PacketEnv → NetworkManager σ → Prop
  | [], _, _ => True
  | t :: ts, envs, net =>
    net.PacketsFor T P t envs ∧ ∀ out ∈ net.pollTransportReceivesFor T t envs, Packets ts out.2 out.1

/-- `P` holds of every packet that a call handles. -/
def CallPackets (net : NetworkManager σ) : Call σ → Prop
  | .poll env => (net.pollTransports T).Packets T P net.transports env.packets
  | _ => True

instance decidablePacketsFor [∀ net env t b a, Decidable (P net env t b a)] (t : ℕ) :
    ∀ (envs : List PacketEnv) (net : NetworkManager σ), Decidable (net.PacketsFor T P t envs)
  | [], _ => isTrue trivial
  | env :: envs, net =>
    have : DecidablePred fun net : NetworkManager σ => net.PacketsFor T P t envs := fun net =>
      decidablePacketsFor t envs net
    inferInstanceAs (Decidable (∀ packet ∈ ((T t).popReceive BUF_SIZE net.world).2,
      P { net with world := ((T t).popReceive BUF_SIZE net.world).1 } env t packet.1 packet.2 ∧
        ({ net with world := ((T t).popReceive BUF_SIZE net.world).1 }.handlePacket
          T env t packet.1 packet.2).PacketsFor T P t envs))

instance decidablePackets [∀ net env t b a, Decidable (P net env t b a)] :
    ∀ (ts : List ℕ) (envs : List PacketEnv) (net : NetworkManager σ),
      Decidable (net.Packets T P ts envs)
  | [], _, _ => isTrue trivial
  | t :: ts, envs, net =>
    have : DecidablePred fun out : NetworkManager σ × List PacketEnv => out.1.Packets T P ts out.2 :=
      fun out => decidablePackets ts out.2 out.1
    inferInstanceAs (Decidable (net.PacketsFor T P t envs ∧
      ∀ out ∈ net.pollTransportReceivesFor T t envs, out.1.Packets T P ts out.2))

instance [∀ net env t b a, Decidable (P net env t b a)] (net : NetworkManager σ) :
    ∀ c, Decidable (net.CallPackets T P c)
  | .poll env => inferInstanceAs
      (Decidable ((net.pollTransports T).Packets T P net.transports env.packets))
  | .network _ | .setTransport _ | .addTransport _ | .start _ _ | .stop | .addLocalClient
  | .disconnectClient _ | .disconnect | .sendToClient _ _ _ | .broadcast _ _ _ | .send _ _
  | .popMessage | .setCallbacks _ | .setConnectionToken _ | .setReplicationManager _
  | .setRpcManager _ | .spawn _ _ _ _ | .destroy _ _ | .setOwner _ _ | .sendFullState _
  | .markDirty _ | .serverTick _ _ | .clientTick _ _ | .invokeRpc _ _ _ => isTrue trivial

end

/-! ### The receive loops -/

section
variable {T} {P : NetworkManager σ → PacketEnv → ℕ → Bytes → Address → Prop}
  {I : NetworkManager σ → Prop} (hworld : ∀ net world, I net → I { net with world := world })
  (hpacket : ∀ net env t buffer sender, P net env t buffer sender → I net →
    I (net.handlePacket T env t buffer sender))

include hworld hpacket

theorem pollTransportReceivesFor_invariant {t : ℕ} {envs : List PacketEnv} {net : NetworkManager σ}
    {out : NetworkManager σ × List PacketEnv} (h : net.pollTransportReceivesFor T t envs = some out)
    (hP : net.PacketsFor T P t envs) (hI : I net) : I out.1 := by
  induction envs generalizing net with
  | nil =>
    unfold pollTransportReceivesFor at h
    split at h
    · cases h
      exact hworld _ _ hI
    · cases h
  | cons env envs ih =>
    unfold pollTransportReceivesFor at h
    unfold PacketsFor at hP
    split at h
    · cases h
      exact hworld _ _ hI
    · rename_i world buffer sender hpop
      rw [hpop] at hP
      obtain ⟨hP, hrest⟩ := hP (buffer, sender) rfl
      exact ih h hrest (hpacket _ _ _ _ _ hP (hworld _ _ hI))

theorem pollTransportReceives_invariant {ts : List ℕ} {envs : List PacketEnv}
    {net : NetworkManager σ} {out : NetworkManager σ × List PacketEnv}
    (h : pollTransportReceives T ts envs net = some out) (hP : net.Packets T P ts envs)
    (hI : I net) : I out.1 := by
  induction ts generalizing envs net with
  | nil =>
    cases h
    exact hI
  | cons t ts ih =>
    obtain ⟨mid, hmid, h⟩ := Option.bind_eq_some_iff.mp h
    exact ih h (hP.2 mid hmid) (pollTransportReceivesFor_invariant hworld hpacket hmid hP.1 hI)

end

end CampelloNet.NetworkManager
