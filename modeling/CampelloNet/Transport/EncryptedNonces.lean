import CampelloNet.Lib.Keyed
import CampelloNet.Transport.Encrypted
import CampelloNet.Transport.Loopback

/-!
# Which nonces are used twice

`send` counts in `client_state` and `send_to` in a counter of the address, while the key and the
direction byte of `send_to` are the same for every address. Two addresses therefore start from the
same nonce under the same key, and the nonces of a run are distinct exactly when `send_to` serves the
addresses of one hash only and no counter wraps (`seals_nodup_iff`).
-/

namespace CampelloNet.Transport.EncryptedTransport

open Lib Crypto Encrypted

variable {σ : Type}

/-- A call on an encrypted transport. -/
inductive Call
  | send (data : Bytes) (r : PacketReliability)
  | sendTo (address : Address) (data : Bytes) (r : PacketReliability)
  | poll
  | popReceive (maxLength : Nat)

/-- The peer for whom a call seals a payload. -/
def Call.peer : Call → Option Peer
  | .send _ _ => some .server
  | .sendTo address _ _ => some (.client (addressHash address))
  | .poll => none
  | .popReceive _ => none

def call (T : ITransport σ) (enc : EncryptedTransport σ) : Call → EncryptedTransport σ
  | .send data r => (enc.send T data r).1
  | .sendTo address data r => (enc.sendTo T address data r).1
  | .poll => enc.poll T
  | .popReceive maxLength => (enc.popReceive T maxLength).1

/-- The keys and nonces that the calls of a run pass to `seal`, in order. -/
def seals (T : ITransport σ) : EncryptedTransport σ → List Call → List (Key × Nonce)
  | _, [] => []
  | enc, c :: cs => (c.peer.map enc.nextSeal).toList ++ seals T (call T enc c) cs

/-! ### Nonces -/

theorem nonceOf_injective {d d' : UInt8} {c c' : UInt64} (h : nonceOf d c = nonceOf d' c') :
    d = d' ∧ c = c' := by
  have hlist := congrArg Vector.toList h
  unfold nonceOf at hlist
  simp only [Vector.toList_mk, List.cons.injEq] at hlist
  obtain ⟨hd, -, -, -, hc⟩ := hlist
  refine ⟨hd, le64_injective ?_⟩
  unfold le64
  simpa using hc

/-! ### One call -/

theorem checkReplay_outbound (st : CounterState) (counter : UInt64) :
    (checkReplay st counter).1.outbound = st.outbound := by
  unfold checkReplay
  dsimp only
  split_ifs <;> rfl

theorem openReceived_outbound (enc : EncryptedTransport σ) (maxLength : Nat) (received : Bytes)
    (sender : Address) (p : Peer) :
    ((enc.openReceived maxLength received sender).1.counters p).outbound =
      (enc.counters p).outbound ∧
    (enc.openReceived maxLength received sender).1.outboundKey p = enc.outboundKey p := by
  rcases openReceived_cases enc maxLength received sender with h | ⟨key, peer, h⟩
  · rw [h]
    exact ⟨rfl, rfl⟩
  · rw [openReceived_of_addressed h]
    refine ⟨?_, outboundKey_setCounters _ _ _ _⟩
    by_cases hp : p = peer
    · rw [hp, counters_setCounters_self, checkReplay_outbound]
    · rw [counters_setCounters_ne _ _ _ hp]

theorem sendSealed_outbound (enc : EncryptedTransport σ) (peer : Peer) (data : Bytes)
    (transmit : Bytes → σ → σ × Bool) (p : Peer) :
    ((enc.sendSealed peer data transmit).1.counters p).outbound =
      (enc.counters p).outbound + (if p = peer then 1 else 0) ∧
    (enc.sendSealed peer data transmit).1.outboundKey p = enc.outboundKey p := by
  have hset : ((enc.setCounters peer { enc.counters peer with
      outbound := (enc.counters peer).outbound + 1 }).counters p).outbound =
      (enc.counters p).outbound + (if p = peer then 1 else 0) := by
    by_cases hp : p = peer
    · rw [hp, counters_setCounters_self, if_pos rfl]
    · rw [counters_setCounters_ne _ _ _ hp, if_neg hp, UInt64.add_zero]
  have hkey := outboundKey_setCounters enc peer
    { enc.counters peer with outbound := (enc.counters peer).outbound + 1 } p
  unfold sendSealed
  dsimp only
  rcases ChaCha20Poly1305.sealed _ _ _ _ _ with _ | out
  · exact ⟨hset, hkey⟩
  · exact ⟨hset, hkey⟩

/-- A call advances the counter it seals with, and no other, and changes no key. -/
theorem call_outbound (T : ITransport σ) (enc : EncryptedTransport σ) (c : Call) (p : Peer) :
    ((call T enc c).counters p).outbound =
      (enc.counters p).outbound + (if c.peer = some p then 1 else 0) ∧
    (call T enc c).outboundKey p = enc.outboundKey p := by
  have hne : ∀ {x y : UInt64}, x = y → x = y + 0 := fun h => by rw [UInt64.add_zero, h]
  cases c with
  | send data r =>
    obtain ⟨hout, hkey⟩ := sendSealed_outbound enc .server data
      (fun packet inner => T.send packet r inner) p
    refine ⟨hout.trans ?_, hkey⟩
    simp only [Call.peer, Option.some.injEq, eq_comm]
  | sendTo address data r =>
    obtain ⟨hout, hkey⟩ := sendSealed_outbound enc (.client (addressHash address)) data
      (fun packet inner => T.sendTo address packet r inner) p
    refine ⟨hout.trans ?_, hkey⟩
    simp only [Call.peer, Option.some.injEq, eq_comm]
  | poll =>
    cases p with
    | server => exact ⟨hne rfl, rfl⟩
    | client hash => exact ⟨hne rfl, rfl⟩
  | popReceive maxLength =>
    have hsame : ∀ enc' : EncryptedTransport σ, enc'.counters p = enc.counters p →
        enc'.outboundKey p = enc.outboundKey p → ((enc'.counters p).outbound =
          (enc.counters p).outbound + 0) ∧ enc'.outboundKey p = enc.outboundKey p := by
      intro enc' hcount hkey
      rw [hcount, hkey]
      exact ⟨hne rfl, rfl⟩
    show (((enc.popReceive T maxLength).1.counters p).outbound = (enc.counters p).outbound + 0) ∧
      (enc.popReceive T maxLength).1.outboundKey p = enc.outboundKey p
    unfold popReceive
    dsimp only
    rcases (T.popReceive (max enc.recvScratch (maxLength + OVERHEAD)) enc.inner).2 with
      _ | ⟨received, sender⟩
    · cases p with
      | server => exact hsame _ rfl rfl
      | client hash => exact hsame _ rfl rfl
    · obtain ⟨hout, hkey⟩ := openReceived_outbound
        { enc with
          inner := (T.popReceive (max enc.recvScratch (maxLength + OVERHEAD)) enc.inner).1
          recvScratch := max enc.recvScratch (maxLength + OVERHEAD) } maxLength received sender p
      cases p with
      | server => exact ⟨hne hout, hkey⟩
      | client hash => exact ⟨hne hout, hkey⟩

/-! ### A run -/

/-- The key and nonce of the `n`-th payload sealed for a peer. -/
def stamp (enc : EncryptedTransport σ) (x : Peer × ℕ) : Key × Nonce :=
  ((enc.outboundKey x.1).1, nonceOf (enc.outboundKey x.1).2 (UInt64.ofNat x.2))

theorem seals_eq (T : ITransport σ) (enc : EncryptedTransport σ) (cs : List Call) (c : Peer → ℕ)
    (hc : ∀ p, (enc.counters p).outbound = UInt64.ofNat (c p)) :
    seals T enc cs = (numbered c (cs.filterMap Call.peer)).map enc.stamp := by
  induction cs generalizing enc c with
  | nil => rfl
  | cons x cs ih =>
    have hstamp : (call T enc x).stamp = enc.stamp := by
      funext y
      unfold stamp
      rw [(call_outbound T enc x y.1).2]
    rw [seals]
    rcases hx : x.peer with _ | p
    · rw [List.filterMap_cons_none hx, ih (call T enc x) c, hstamp]
      · rfl
      · intro q
        rw [(call_outbound T enc x q).1, hx, if_neg (by simp), UInt64.add_zero, hc q]
    · rw [List.filterMap_cons_some hx, numbered, List.map_cons,
        ih (call T enc x) (Function.update c p (c p + 1)), hstamp]
      · have hnext : enc.nextSeal p = enc.stamp (p, c p) := by
          unfold stamp nextSeal
          rw [hc p]
        rw [Option.map_some, hnext]
        rfl
      · intro q
        rw [(call_outbound T enc x q).1, hx, hc q]
        by_cases hq : q = p
        · subst hq
          rw [if_pos rfl, Function.update_self, UInt64.ofNat_add]
          rfl
        · rw [if_neg (fun h => hq (Option.some.inj h).symm), UInt64.add_zero,
            Function.update_of_ne hq]

/-- Under one key and one direction the counters separate the first `2 ^ 64` nonces. -/
theorem ofNat_inj_of_lt {n n' : ℕ} (hn : n < 2 ^ 64) (hn' : n' < 2 ^ 64)
    (h : UInt64.ofNat n = UInt64.ofNat n') : n = n' := by
  have := congrArg UInt64.toNat h
  rw [UInt64.toNat_ofNat', UInt64.toNat_ofNat', Nat.mod_eq_of_lt hn, Nat.mod_eq_of_lt hn'] at this
  exact this

/-- The nonces of a run from a new transport are distinct if and only if no more than `2 ^ 64`
payloads are sealed for the server or for a hash, and for no two hashes. -/
theorem seals_nodup_iff (T : ITransport σ) (inner : σ) (key : Bytes) (cs : List Call) :
    (seals T (new inner key) cs).Nodup ↔
      (∀ p, (cs.filterMap Call.peer).count p ≤ 2 ^ 64) ∧
      ∀ h h', Peer.client h ∈ cs.filterMap Call.peer → Peer.client h' ∈ cs.filterMap Call.peer →
        h = h' := by
  have hzero : ∀ p, ((new inner key).counters p).outbound = UInt64.ofNat 0 := by
    intro p
    cases p <;> rfl
  rw [seals_eq T (new inner key) cs (fun _ => 0) hzero, nodup_map_numbered]
  generalize cs.filterMap Call.peer = ps
  constructor
  · intro hinj
    refine ⟨fun p => ?_, fun h h' hmem hmem' => ?_⟩
    · -- the nonce of payload 2 ^ 64 is the first one again
      by_contra hcount
      have hlt : 2 ^ 64 < ps.count p := not_le.mp hcount
      have hwrap : UInt64.ofNat (2 ^ 64) = UInt64.ofNat 0 := by decide
      have := hinj p 0 p (2 ^ 64) (by omega) hlt (by unfold stamp; rw [hwrap])
      simp at this
    · -- two hashes share the nonce of their first payloads
      have := hinj (.client h) 0 (.client h') 0 (List.count_pos_iff.mpr hmem)
        (List.count_pos_iff.mpr hmem') rfl
      simpa using this
  · rintro ⟨hcount, hhash⟩ p n p' n' hn hn' heq
    obtain ⟨-, hnonce⟩ := Prod.ext_iff.mp heq
    obtain ⟨hdir, hctr⟩ := nonceOf_injective hnonce
    have hnn : n = n' := ofNat_inj_of_lt (lt_of_lt_of_le hn (hcount p))
      (lt_of_lt_of_le hn' (hcount p')) hctr
    have hp : p = p' := by
      cases p with
      | server =>
        cases p' with
        | server => rfl
        | client h' => exact absurd (show DIR_CLIENT_TO_SERVER = DIR_SERVER_TO_CLIENT from hdir) (by decide)
      | client h =>
        cases p' with
        | server => exact absurd (show DIR_SERVER_TO_CLIENT = DIR_CLIENT_TO_SERVER from hdir) (by decide)
        | client h' =>
          rw [hhash h h' (List.count_pos_iff.mp (by omega)) (List.count_pos_iff.mp (by omega))]
    rw [hp, hnn]

/-! ### An execution -/

/-- A server on a hub of its own. -/
def server : EncryptedTransport LoopbackHub := new {} (List.replicate 32 0)

/-- A server that sends one payload to each of two clients uses one nonce twice. -/
theorem seals_repeat :
    ¬(seals (LoopbackTransport.iTransport 0) server
      [.sendTo (.ofIPv4 127 0 0 1 50000) [1] .reliableOrdered,
        .sendTo (.ofIPv4 127 0 0 1 50001) [2] .reliableOrdered]).Nodup := by
  decide +kernel

end CampelloNet.Transport.EncryptedTransport
