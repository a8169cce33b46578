import CampelloNet.Lib.Meter
import CampelloNet.Transport.Udp.ConnectionRun

/-!
# Bandwidth limits

`check_and_consume_bandwidth` charges every packet that asks it to two counters, the connection's and
the channel's. Fragments, unreliable packets and everything that `resend_pending` sends ask; the first
transmission of a reliable message does not. Between two resets the packets that ask stay within the
limits, whatever else is sent.
-/

namespace CampelloNet.Transport.Udp

open Lib

/-! ### Meters of a connection -/

/-- What a limit is for: the connection, or one of its channels. -/
abbrev Scope := Option (Fin 4)

namespace Connection

def limit (conn : Connection) : Scope → ℕ
  | none => conn.globalBandwidthLimit.toNat
  | some ch => (conn.channels ch).bandwidthLimit.toNat

def counter (conn : Connection) : Scope → ℕ
  | none => conn.bytesSentThisSecond.toNat
  | some ch => (conn.channels ch).bytesSentThisSecond.toNat

end Connection

/-- Whether a packet of this channel counts. -/
def Scope.covers (scope : Scope) (ch : Fin 4) : Bool := scope.all (· = ch)

namespace Attempt

def isReset (e : Attempt) : Bool := e = .reset

/-- Header plus payload of a packet handed to `send_raw`, if it counts. -/
def size (scope : Scope) (e : Attempt) : ℕ :=
  match e.packet with
  | some (hdr, payload) => if scope.covers hdr.channel then PacketHeader.SIZE + payload.length else 0
  | none => 0

/-- The first transmission of a reliable message, or of a fragment of one. -/
def Unmetered : Attempt → Prop
  | first hdr _ => hdr.reliability.isReliable = true
  | reset | again _ _ _ | refused _ => False

instance : DecidablePred Unmetered
  | first hdr _ => inferInstanceAs (Decidable (hdr.reliability.isReliable = true))
  | reset | again _ _ _ | refused _ => inferInstanceAs (Decidable False)

/-- The size of what asks `check_and_consume_bandwidth`. -/
def metered (scope : Scope) (e : Attempt) : ℕ := if e.Unmetered then 0 else e.size scope

end Attempt

/-- The limit is set, and was kept by what the log says was metered. -/
structure Metered (scope : Scope) (limit : ℕ) (conn : Connection) (log : List Attempt) : Prop where
  limited : 0 < limit
  limit_eq : conn.limit scope = limit
  charged : Charged Attempt.isReset (Attempt.metered scope) limit (conn.counter scope) log

/-- The two connections differ in nothing that limits the bandwidth. -/
structure SameMeters (conn conn' : Connection) : Prop where
  limit : ∀ scope, conn'.limit scope = conn.limit scope
  counter : ∀ scope, conn'.counter scope = conn.counter scope

variable (io : Io) {scope : Scope} {limit : ℕ} {conn conn' : Connection} {log : List Attempt} {e : Attempt}

theorem Metered.of_same (h : Metered scope limit conn log) (hsame : SameMeters conn conn') :
    Metered scope limit conn' log := by
  refine ⟨h.limited, (hsame.limit scope).trans h.limit_eq, ?_⟩
  rw [hsame.counter]
  exact h.charged

theorem Metered.free (h : Metered scope limit conn log) (he : e.metered scope = 0) :
    Metered scope limit conn (log ++ [e]) := ⟨h.limited, h.limit_eq, h.charged.free he⟩

namespace SameMeters

variable {conn'' : Connection}

theorem of_eq (hlimit : conn'.globalBandwidthLimit = conn.globalBandwidthLimit)
    (hcounter : conn'.bytesSentThisSecond = conn.bytesSentThisSecond)
    (hchannels : conn'.channels = conn.channels) : SameMeters conn conn' := by
  refine ⟨fun scope => ?_, fun scope => ?_⟩
  · cases scope with
    | none => exact congrArg UInt32.toNat hlimit
    | some ch => rw [Connection.limit, Connection.limit, hchannels]
  · cases scope with
    | none => exact congrArg UInt32.toNat hcounter
    | some ch => rw [Connection.counter, Connection.counter, hchannels]

theorem refl (conn : Connection) : SameMeters conn conn := .of_eq rfl rfl rfl

theorem trans (h : SameMeters conn conn') (h' : SameMeters conn' conn'') : SameMeters conn conn'' :=
  ⟨fun scope => (h'.limit scope).trans (h.limit scope),
    fun scope => (h'.counter scope).trans (h.counter scope)⟩

end SameMeters

theorem sameMeters_setChannel {ch : Fin 4} {channel : Channel}
    (hlimit : channel.bandwidthLimit = (conn.channels ch).bandwidthLimit)
    (hcounter : channel.bytesSentThisSecond = (conn.channels ch).bytesSentThisSecond) :
    SameMeters conn (conn.setChannel ch channel) := by
  refine ⟨fun scope => ?_, fun scope => ?_⟩
  · cases scope with
    | none => rfl
    | some c =>
      rw [Connection.limit, Connection.limit, Connection.channels_setChannel]
      split_ifs with hc
      · rw [hc, hlimit]
      · rfl
  · cases scope with
    | none => rfl
    | some c =>
      rw [Connection.counter, Connection.counter, Connection.channels_setChannel]
      split_ifs with hc
      · rw [hc, hcounter]
      · rfl

/-! ### The bandwidth check -/

theorem Metered.reset (h : Metered scope limit conn log) :
    Metered scope limit (resetBandwidthCounters conn io.now) (log ++ resetLog io conn) := by
  have hlimit : (resetBandwidthCounters conn io.now).limit scope = conn.limit scope := by
    rw [resetBandwidthCounters]
    split_ifs <;> cases scope <;> rfl
  refine ⟨h.limited, hlimit.trans h.limit_eq, ?_⟩
  rw [resetLog, resetBandwidthCounters]
  split_ifs
  · exact h.charged.reset rfl
  · rw [List.append_nil]
    exact h.charged

/-- Below a limit a counter does not wrap around. -/
theorem toNat_add_ofNat {x limit : UInt32} {n : ℕ} (h : x.toNat + n ≤ limit.toNat) :
    (x + .ofNat n).toNat = x.toNat + n := by
  have hlimit := limit.toNat_lt
  rw [UInt32.toNat_add, UInt32.toNat_ofNat']
  omega

/-- The connection after a packet of channel `ch` is charged. -/
def charge (conn : Connection) (ch : Fin 4) (size : ℕ) : Connection :=
  { conn.setChannel ch { conn.channels ch with
      bytesSentThisSecond := (conn.channels ch).bytesSentThisSecond + .ofNat size } with
    bytesSentThisSecond := conn.bytesSentThisSecond + .ofNat size }

/-- The check grants a packet only if it fits into both limits. -/
theorem checkAndConsumeBandwidth_cases (conn : Connection) (ch : Fin 4) (size : ℕ) :
    checkAndConsumeBandwidth io conn ch size = (resetBandwidthCounters conn io.now, false) ∨
    checkAndConsumeBandwidth io conn ch size = (charge (resetBandwidthCounters conn io.now) ch size, true) ∧
      ∀ scope : Scope, scope.covers ch = true → 0 < (resetBandwidthCounters conn io.now).limit scope →
        (resetBandwidthCounters conn io.now).counter scope + size ≤
          (resetBandwidthCounters conn io.now).limit scope := by
  rw [checkAndConsumeBandwidth]
  generalize resetBandwidthCounters conn io.now = conn
  dsimp only
  by_cases hglobal : conn.globalBandwidthLimit > 0 ∧
      conn.bytesSentThisSecond.toNat + size > conn.globalBandwidthLimit.toNat
  · rw [if_pos hglobal]
    exact .inl rfl
  by_cases hchannel : (conn.channels ch).bandwidthLimit > 0 ∧
      (conn.channels ch).bytesSentThisSecond.toNat + size > (conn.channels ch).bandwidthLimit.toNat
  · rw [if_neg hglobal, if_pos hchannel]
    exact .inl rfl
  rw [if_neg hglobal, if_neg hchannel]
  refine .inr ⟨rfl, fun scope hcovers hlimit => ?_⟩
  cases scope with
  | none => exact not_lt.mp fun h => hglobal ⟨UInt32.lt_iff_toNat_lt.mpr hlimit, h⟩
  | some c =>
    have hc : c = ch := by simpa [Scope.covers] using hcovers
    subst hc
    exact not_lt.mp fun h => hchannel ⟨UInt32.lt_iff_toNat_lt.mpr hlimit, h⟩

theorem limit_charge (conn : Connection) (ch : Fin 4) (size : ℕ) (scope : Scope) :
    (charge conn ch size).limit scope = conn.limit scope := by
  cases scope with
  | none => rfl
  | some c =>
    rw [Connection.limit, Connection.limit, charge]
    dsimp only
    rw [Connection.channels_setChannel]
    split_ifs with hc
    · rw [hc]
    · rfl

theorem counter_charge {ch : Fin 4} {size : ℕ}
    (hroom : scope.covers ch = true → conn.counter scope + size ≤ conn.limit scope) :
    (charge conn ch size).counter scope =
      conn.counter scope + if scope.covers ch then size else 0 := by
  cases scope with
  | none => exact toNat_add_ofNat (hroom rfl)
  | some c =>
    rw [Connection.counter, charge]
    dsimp only
    rw [Connection.channels_setChannel]
    by_cases hc : c = ch
    · have hcovers : Scope.covers (some c) ch = true := by simp [Scope.covers, hc]
      rw [if_pos hc, if_pos hcovers]
      subst hc
      exact toNat_add_ofNat (hroom hcovers)
    · rw [if_neg hc, if_neg (by simp [Scope.covers, hc])]
      rfl

/-- A packet that the check grants is metered. -/
theorem Metered.check (h : Metered scope limit conn log) (ch : Fin 4) (size : ℕ)
    (hsize : e.metered scope ≤ if scope.covers ch then size else 0) :
    (∀ i, (checkAndConsumeBandwidth io conn ch size).2 = false →
      Metered scope limit (checkAndConsumeBandwidth io conn ch size).1 (log ++ resetLog io conn ++ [.refused i])) ∧
    ((checkAndConsumeBandwidth io conn ch size).2 = true →
      Metered scope limit (checkAndConsumeBandwidth io conn ch size).1 (log ++ resetLog io conn ++ [e])) := by
  have hreset := h.reset io
  rcases checkAndConsumeBandwidth_cases io conn ch size with heq | ⟨heq, hroom⟩
  · rw [heq]
    exact ⟨fun i _ => hreset.free (by simp [Attempt.metered, Attempt.size, Attempt.packet]),
      fun h => nomatch h⟩
  · rw [heq]
    refine ⟨fun i h => (nomatch h), fun _ => ?_⟩
    have hfits : scope.covers ch = true → (resetBandwidthCounters conn io.now).counter scope + size ≤
        (resetBandwidthCounters conn io.now).limit scope :=
      fun hcovers => hroom scope hcovers (hreset.limit_eq.symm ▸ hreset.limited)
    refine ⟨hreset.limited, (limit_charge _ ch size scope).trans hreset.limit_eq, ?_⟩
    rw [counter_charge hfits]
    by_cases hcovers : scope.covers ch = true
    · rw [if_pos hcovers] at hsize ⊢
      exact hreset.charged.charge hsize ((hfits hcovers).trans_eq hreset.limit_eq)
    · rw [if_neg hcovers] at hsize ⊢
      exact hreset.charged.free (Nat.le_zero.mp hsize)

/-! ### Sending and resending -/

theorem metered_le {hdr : PacketHeader} {payload : Bytes} {ch : Fin 4} {size : ℕ}
    (hpacket : e.packet = some (hdr, payload)) (hch : hdr.channel = ch)
    (hsize : PacketHeader.SIZE + payload.length ≤ size) :
    e.metered scope ≤ if scope.covers ch then size else 0 := by
  subst hch
  rw [Attempt.metered, Attempt.size, hpacket]
  dsimp only
  split_ifs
  · exact Nat.zero_le _
  · exact Nat.zero_le _
  · exact hsize
  · exact Nat.le_refl _

theorem metered_first (hdr : PacketHeader) (payload : Bytes) (hrel : hdr.reliability.isReliable = true) :
    (Attempt.first hdr payload).metered scope = 0 := if_pos hrel

/-- The check that `send_to_connection` makes of a packet unless it is reliable. -/
theorem Metered.ask (h : Metered scope limit conn log) (r : PacketReliability) (hdr : PacketHeader)
    (payload : Bytes) {size : ℕ} (hchannel : hdr.channel = r.index) (hreliability : hdr.reliability = r)
    (hsize : PacketHeader.SIZE + payload.length ≤ size) (i : ℕ) {ok : Bool}
    (hask : (if r.isReliable then (conn, true) else checkAndConsumeBandwidth io conn r.index size) =
      (conn', ok)) :
    Metered scope limit conn' (log ++ ((if r.isReliable then [] else resetLog io conn) ++
      [if ok = false then .refused i else .first hdr payload])) := by
  by_cases hrel : r.isReliable = true
  · rw [if_pos hrel] at hask ⊢
    cases hask
    exact h.free (metered_first hdr payload (hreliability ▸ hrel))
  · rw [if_neg hrel] at hask ⊢
    obtain ⟨hrefused, hgranted⟩ := h.check io r.index size
      (metered_le (e := .first hdr payload) rfl hchannel hsize)
    rw [hask] at hrefused hgranted
    rw [← List.append_assoc]
    cases ok with
    | false => exact hrefused i rfl
    | true => exact hgranted rfl

theorem metered_sendFragments (r : PacketReliability) (base : UInt16) (data : Bytes) (is : List ℕ)
    (h : Metered scope limit conn log) :
    Metered scope limit (sendFragments io r base data is conn).1
      (log ++ sendFragmentsLog io r base data is conn) := by
  induction is generalizing conn log with
  | nil =>
    rw [sendFragmentsLog, List.append_nil]
    exact h
  | cons i is ih =>
    rw [sendFragments, sendFragmentsLog]
    rcases hask : (if r.isReliable then (conn, true)
      else checkAndConsumeBandwidth io conn r.index (PacketHeader.SIZE + MAX_PAYLOAD_SIZE))
      with ⟨conn₁, ok⟩
    have hasked := h.ask io r (fragmentHeader r.index (conn₁.channels r.index) base i
        (numFragments data) (fragmentOf data i).length) (fragmentOf data i)
      (channel_fragmentHeader ..) (by simp)
      (Nat.add_le_add_left (length_fragmentOf_le data i) _) i hask
    dsimp only
    cases ok with
    | false => exact hasked
    | true =>
      have hsent : Metered scope limit { conn₁ with lastSendTime := io.now } _ :=
        hasked.of_same (.of_eq rfl rfl rfl)
      cases sendRaw io conn₁.address (fragmentHeader r.index (conn₁.channels r.index) base i
        (numFragments data) (fragmentOf data i).length) (fragmentOf data i) with
      | none => exact hsent
      | some d => simpa using ih hsent

theorem metered_send (data : Bytes) (r : PacketReliability) (priority : UInt8)
    (h : Metered scope limit conn log) :
    Metered scope limit (sendToConnection io conn data r priority).1
      (log ++ sendLog io conn data r priority) := by
  rw [sendToConnection, sendLog]
  by_cases hstate : conn.state ≠ .connected ∧ conn.state ≠ .connecting
  · rw [if_pos hstate, if_pos hstate, List.append_nil]
    exact h
  rw [if_neg hstate, if_neg hstate]
  dsimp only
  by_cases hlen : data.length ≤ MAX_PAYLOAD_SIZE
  · rw [if_pos hlen, if_pos hlen]
    by_cases hrel : r.isReliable = true
    · rw [if_pos hrel, if_pos hrel]
      have hqueued : Metered scope limit (conn.setChannel r.index
          { conn.channels r.index with
            localSeq := (conn.channels r.index).localSeq + 1
            pending := (conn.channels r.index).pending ++
              [⟨(conn.channels r.index).localSeq, io.now, 0, data, false, priority⟩] }) log :=
        h.of_same (sameMeters_setChannel rfl rfl)
      have hsent := hqueued.free (metered_first (userHeader r.index (conn.channels r.index)
        (conn.channels r.index).localSeq data.length) data (by simpa using hrel))
      exact hsent.of_same (.of_eq rfl rfl rfl)
    · rw [if_neg hrel, if_neg hrel]
      have hnumbered : Metered scope limit (conn.setChannel r.index
          { conn.channels r.index with localSeq := (conn.channels r.index).localSeq + 1 }) log :=
        h.of_same (sameMeters_setChannel rfl rfl)
      rcases hcheck : checkAndConsumeBandwidth io (conn.setChannel r.index
        { conn.channels r.index with localSeq := (conn.channels r.index).localSeq + 1 }) r.index
        (PacketHeader.SIZE + data.length) with ⟨conn₁, ok⟩
      have hasked := hnumbered.ask io r (userHeader r.index (conn.channels r.index)
          (conn.channels r.index).localSeq data.length) data (channel_userHeader ..) (by simp)
        (Nat.le_refl _) 0 ((if_neg hrel).trans hcheck)
      rw [if_neg hrel] at hasked
      cases ok with
      | false => exact hasked
      | true => exact hasked.of_same (.of_eq rfl rfl rfl)
  · rw [if_neg hlen, if_neg hlen]
    by_cases hbig : numFragments data > 255
    · rw [if_pos hbig, if_pos hbig, List.append_nil]
      exact h
    · rw [if_neg hbig, if_neg hbig]
      exact metered_sendFragments io r _ data _ (h.of_same (sameMeters_setChannel rfl rfl))

theorem metered_resendFragments (ch : Fin 4) (p : Pending) (is : List ℕ) (h : Metered scope limit conn log) :
    Metered scope limit (resendFragments io ch p is conn).1 (log ++ resendFragmentsLog io ch p is conn) := by
  induction is generalizing conn log with
  | nil =>
    rw [resendFragmentsLog, List.append_nil]
    exact h
  | cons i is ih =>
    rw [resendFragments, resendFragmentsLog]
    rcases hcheck : checkAndConsumeBandwidth io conn ch (PacketHeader.SIZE + MAX_PAYLOAD_SIZE)
      with ⟨conn₁, ok⟩
    obtain ⟨hrefused, hgranted⟩ := h.check io ch (PacketHeader.SIZE + MAX_PAYLOAD_SIZE)
      (metered_le (e := .again i (fragmentHeader ch (conn₁.channels ch) p.sequence i
        (numFragments p.data) (fragmentOf p.data i).length) (fragmentOf p.data i)) rfl
        (channel_fragmentHeader ..) (Nat.add_le_add_left (length_fragmentOf_le p.data i) _))
    rw [hcheck] at hrefused hgranted
    cases ok with
    | false => simpa using ih (hrefused i rfl)
    | true => simpa using ih (hgranted rfl)

theorem metered_resendEntry (ch : Fin 4) (p : Pending) (h : Metered scope limit conn log) :
    Metered scope limit (resendEntry io ch p conn).1 (log ++ resendEntryLog io ch p conn) := by
  rw [resendEntry, resendEntryLog]
  by_cases hfrag : p.fragmented = true
  · rw [if_pos hfrag, if_pos hfrag]
    exact metered_resendFragments io ch p _ h
  · rw [if_neg hfrag, if_neg hfrag]
    rcases hcheck : checkAndConsumeBandwidth io conn ch (PacketHeader.SIZE + p.data.length)
      with ⟨conn₁, ok⟩
    obtain ⟨hrefused, hgranted⟩ := h.check io ch (PacketHeader.SIZE + p.data.length)
      (metered_le (e := .again 0 (userHeader ch (conn₁.channels ch) p.sequence p.data.length) p.data)
        rfl (channel_userHeader ..) (Nat.le_refl _))
    rw [hcheck] at hrefused hgranted
    rw [← List.append_assoc]
    cases ok with
    | false => exact hrefused 0 rfl
    | true => exact hgranted rfl

theorem metered_resendChannel (t : Time) (ch : Fin 4) (ps : List Pending) (h : Metered scope limit conn log) :
    Metered scope limit (resendChannel io t ch ps conn).1 (log ++ resendChannelLog io t ch ps conn) := by
  induction ps generalizing conn log with
  | nil =>
    rw [resendChannelLog, List.append_nil]
    exact h
  | cons p ps ih =>
    rw [resendChannel, resendChannelLog]
    by_cases hdue : t - p.sendTime > timeout conn
    · rw [if_pos hdue, if_pos hdue]
      by_cases hretries : p.retries + 1 > 10
      · rw [if_pos hretries, if_pos hretries, List.append_nil]
        exact h.of_same (.of_eq rfl rfl rfl)
      · rw [if_neg hretries, if_neg hretries, ← List.append_assoc]
        exact ih (metered_resendEntry io ch _ h)
    · rw [if_neg hdue, if_neg hdue]
      exact ih h

theorem metered_resendChannels (t : Time) (chs : List (Fin 4)) (h : Metered scope limit conn log) :
    Metered scope limit (resendChannels io t chs conn).1 (log ++ resendChannelsLog io t chs conn) := by
  induction chs generalizing conn log with
  | nil =>
    rw [resendChannelsLog, List.append_nil]
    exact h
  | cons ch chs ih =>
    rw [resendChannels, resendChannelsLog]
    have hresent := metered_resendChannel io t ch (conn.channels ch).pending h
    rcases hresend : resendChannel io t ch (conn.channels ch).pending conn
      with ⟨conn₁, pending, out, stop⟩
    rw [hresend] at hresent
    have hput : Metered scope limit (conn₁.setChannel ch { conn₁.channels ch with pending := pending }) _ :=
      hresent.of_same (sameMeters_setChannel rfl rfl)
    cases stop with
    | true => exact hput
    | false =>
      dsimp only
      rw [if_neg (by simp), if_neg (by simp), ← List.append_assoc]
      exact ih hput

/-! ### Runs -/

theorem sameMeters_processAcks (now : Time) (conn : Connection) (ch : Fin 4) (ack : UInt16)
    (ackBits : UInt32) : SameMeters conn (processAcks now conn ch ack ackBits) := by
  have hsample : ∀ (ps : List Pending) (conn : Connection),
      SameMeters conn (ps.foldl (sampleRtt now) conn) := by
    intro ps
    induction ps with
    | nil => exact SameMeters.refl
    | cons p ps ih =>
      intro conn
      have hone : SameMeters conn (sampleRtt now conn p) := .of_eq rfl rfl rfl
      exact hone.trans (ih (sampleRtt now conn p))
  rw [processAcks]
  split_ifs
  · exact SameMeters.refl conn
  · refine (hsample _ conn).trans (sameMeters_setChannel ?_ ?_) <;>
      rw [(foldl_sampleRtt now _ conn).2.2]

theorem meters_acceptPacket (channel : Channel) (hdr : PacketHeader) (payload : Bytes) :
    (acceptPacket channel hdr payload).1.bandwidthLimit = channel.bandwidthLimit ∧
      (acceptPacket channel hdr payload).1.bytesSentThisSecond = channel.bytesSentThisSecond := by
  rw [acceptPacket]
  cases hdr.reliability with
  | reliableOrdered =>
    dsimp only
    split_ifs <;> exact ⟨rfl, rfl⟩
  | reliableUnordered => exact ⟨rfl, rfl⟩
  | unreliableSequenced =>
    dsimp only
    split_ifs <;> exact ⟨rfl, rfl⟩
  | unreliable => exact ⟨rfl, rfl⟩

theorem sameMeters_receiveOn (env : Env) (conn : Connection) (hdr : PacketHeader) (payload : Bytes) :
    SameMeters conn (receiveOn env conn hdr payload) := by
  have hheard : SameMeters conn { conn with lastRecvTime := env.now } := .of_eq rfl rfl rfl
  have hacked := hheard.trans (sameMeters_processAcks env.now { conn with lastRecvTime := env.now }
    hdr.channel hdr.ack hdr.ackBits)
  rw [receiveOn]
  dsimp only
  split_ifs
  · exact SameMeters.refl conn
  · exact hacked.trans (.of_eq rfl rfl rfl)
  · exact hacked
  · exact hacked.trans (.of_eq rfl rfl rfl)
  · exact hacked
  · obtain ⟨hlimit, hcounter⟩ := meters_acceptPacket
      ((processAcks env.now { conn with lastRecvTime := env.now } hdr.channel hdr.ack
        hdr.ackBits).channels hdr.channel) hdr payload
    exact hacked.trans (sameMeters_setChannel hlimit hcounter)

namespace ConnectionCall

/-- The call leaves the limits alone. -/
def Traffic : ConnectionCall → Prop
  | send _ _ _ _ | receive _ _ _ | service _ _ => True
  | limitConnection _ | limitChannel _ _ => False

/-- Everything that the call hands to `send_raw` asks `check_and_consume_bandwidth`. -/
def Asks : ConnectionCall → Prop
  | send _ _ r _ => r.isReliable = false
  | receive _ _ _ | service _ _ | limitConnection _ | limitChannel _ _ => True

end ConnectionCall

variable {c : ConnectionCall} {calls : List ConnectionCall}

theorem metered_call (h : Metered scope limit conn log) (hc : c.Traffic) :
    Metered scope limit (connectionCall conn c) (log ++ callLog conn c) := by
  cases c with
  | send io data r priority => exact metered_send io data r priority h
  | receive env hdr payload =>
    rw [callLog, List.append_nil]
    exact h.of_same (sameMeters_receiveOn env conn hdr payload)
  | service io t =>
    have hresent := metered_resendChannels io t (List.finRange 4) h
    rw [connectionCall, serviceConnection, callLog]
    by_cases hstate : conn.state = .connected
    · rw [if_pos hstate, if_pos hstate]
      dsimp only
      split_ifs
      · exact hresent.of_same (.of_eq rfl rfl rfl)
      · exact hresent
    · rw [if_neg hstate, if_neg hstate, List.append_nil]
      exact h
  | limitConnection n => exact hc.elim
  | limitChannel r n => exact hc.elim

theorem metered_run (h : Metered scope limit conn log) (hcalls : ∀ c ∈ calls, c.Traffic) :
    Metered scope limit (runConnection conn calls) (log ++ runLog conn calls) := by
  induction calls generalizing conn log with
  | nil =>
    rw [runLog, List.append_nil]
    exact h
  | cons c calls ih =>
    rw [runLog, ← List.append_assoc]
    exact ih (metered_call h (hcalls c List.mem_cons_self))
      fun c' hc' => hcalls c' (List.mem_cons_of_mem _ hc')

/-! ### What asks -/

theorem asks_resetLog (conn : Connection) : ∀ e ∈ resetLog io conn, ¬e.Unmetered := by
  intro e he
  rw [resetLog] at he
  split_ifs at he
  · rw [List.mem_singleton.mp he]
    exact id
  · cases he

theorem asks_sendFragmentsLog {r : PacketReliability} (hr : r.isReliable = false) (base : UInt16)
    (data : Bytes) (is : List ℕ) (conn : Connection) :
    ∀ e ∈ sendFragmentsLog io r base data is conn, ¬e.Unmetered := by
  induction is generalizing conn with
  | nil => exact fun e he => nomatch he
  | cons i is ih =>
    intro e he
    rw [sendFragmentsLog] at he
    simp only [hr, Bool.false_eq_true, if_false] at he
    split_ifs at he with hok
    · rcases List.mem_append.mp he with hreset | hlast
      · exact asks_resetLog io conn e hreset
      · rw [List.mem_singleton.mp hlast]
        exact id
    · rcases List.mem_append.mp he with hreset | hlater
      · exact asks_resetLog io conn e hreset
      rcases List.mem_cons.mp hlater with rfl | hrest
      · simp [Attempt.Unmetered, hr]
      · split at hrest
        · cases hrest
        · exact ih _ e hrest

theorem asks_sendLog {r : PacketReliability} (hr : r.isReliable = false) (conn : Connection)
    (data : Bytes) (priority : UInt8) : ∀ e ∈ sendLog io conn data r priority, ¬e.Unmetered := by
  intro e he
  rw [sendLog] at he
  simp only [hr, Bool.false_eq_true, if_false] at he
  split_ifs at he with _ _ hok
  · cases he
  · rcases List.mem_append.mp he with hreset | hlast
    · exact asks_resetLog io conn e hreset
    · rw [List.mem_singleton.mp hlast]
      exact id
  · rcases List.mem_append.mp he with hreset | hlast
    · exact asks_resetLog io conn e hreset
    · rw [List.mem_singleton.mp hlast]
      simp [Attempt.Unmetered, hr]
  · cases he
  · exact asks_sendFragmentsLog io hr _ data _ _ e he

theorem asks_resendFragmentsLog (ch : Fin 4) (p : Pending) (is : List ℕ) (conn : Connection) :
    ∀ e ∈ resendFragmentsLog io ch p is conn, ¬e.Unmetered := by
  induction is generalizing conn with
  | nil => exact fun e he => nomatch he
  | cons i is ih =>
    intro e he
    rw [resendFragmentsLog] at he
    rcases List.mem_append.mp he with hreset | hlater
    · exact asks_resetLog io conn e hreset
    rcases hcheck : checkAndConsumeBandwidth io conn ch (PacketHeader.SIZE + MAX_PAYLOAD_SIZE)
      with ⟨conn₁, ok⟩
    rw [hcheck] at hlater
    cases ok with
    | false =>
      rcases List.mem_cons.mp hlater with rfl | hrest
      · exact id
      · exact ih _ e hrest
    | true =>
      rcases List.mem_cons.mp hlater with rfl | hrest
      · exact id
      · exact ih _ e hrest

theorem asks_resendEntryLog (ch : Fin 4) (p : Pending) (conn : Connection) :
    ∀ e ∈ resendEntryLog io ch p conn, ¬e.Unmetered := by
  rw [resendEntryLog]
  split_ifs
  · exact asks_resendFragmentsLog io ch p _ conn
  · intro e he
    rcases List.mem_append.mp he with hreset | hlast
    · exact asks_resetLog io conn e hreset
    rcases hcheck : checkAndConsumeBandwidth io conn ch (PacketHeader.SIZE + p.data.length)
      with ⟨conn₁, ok⟩
    rw [hcheck] at hlast
    cases ok with
    | false =>
      rw [List.mem_singleton.mp hlast]
      exact id
    | true =>
      rw [List.mem_singleton.mp hlast]
      exact id

theorem asks_resendChannelLog (t : Time) (ch : Fin 4) (ps : List Pending) (conn : Connection) :
    ∀ e ∈ resendChannelLog io t ch ps conn, ¬e.Unmetered := by
  induction ps generalizing conn with
  | nil => exact fun e he => nomatch he
  | cons p ps ih =>
    intro e he
    rw [resendChannelLog] at he
    dsimp only at he
    split_ifs at he
    · cases he
    · rcases List.mem_append.mp he with hentry | hrest
      · exact asks_resendEntryLog io ch _ conn e hentry
      · exact ih _ e hrest
    · exact ih conn e he

theorem asks_resendChannelsLog (t : Time) (chs : List (Fin 4)) (conn : Connection) :
    ∀ e ∈ resendChannelsLog io t chs conn, ¬e.Unmetered := by
  induction chs generalizing conn with
  | nil => exact fun e he => nomatch he
  | cons ch chs ih =>
    intro e he
    rw [resendChannelsLog] at he
    dsimp only at he
    split_ifs at he
    · exact asks_resendChannelLog io t ch _ conn e he
    · rcases List.mem_append.mp he with hchannel | hrest
      · exact asks_resendChannelLog io t ch _ conn e hchannel
      · exact ih _ e hrest

theorem asks_callLog (hc : c.Asks) (conn : Connection) : ∀ e ∈ callLog conn c, ¬e.Unmetered := by
  cases c with
  | send io data r priority => exact asks_sendLog io hc conn data priority
  | service io t =>
    rw [callLog]
    split_ifs
    · exact asks_resendChannelsLog io t _ conn
    · exact fun e he => nomatch he
  | receive | limitConnection | limitChannel => exact fun e he => nomatch he

theorem asks_runLog (hcalls : ∀ c ∈ calls, c.Asks) (conn : Connection) :
    ∀ e ∈ runLog conn calls, ¬e.Unmetered := by
  induction calls generalizing conn with
  | nil => exact fun e he => nomatch he
  | cons c calls ih =>
    intro e he
    rcases List.mem_append.mp he with hcall | hrest
    · exact asks_callLog (hcalls c List.mem_cons_self) conn e hcall
    · exact ih (fun c' hc' => hcalls c' (List.mem_cons_of_mem _ hc')) _ e hrest

/-! ### The limits -/

/-- Without a reset in between, the packets handed to `send_raw` are no more than each limit allows. -/
def CapsHold (conn : Connection) (calls : List ConnectionCall) : Prop :=
  ∀ scope, 0 < conn.limit scope → ∀ front mid back, runLog conn calls = front ++ mid ++ back →
    (∀ e ∈ mid, e.isReset = false) → (mid.map (Attempt.size scope)).sum ≤ conn.limit scope

/-- What a stretch without a reset sends beyond a limit did not ask. -/
theorem sum_size_le (hcalls : ∀ c ∈ calls, c.Traffic) (hlimit : 0 < conn.limit scope)
    {front mid back : List Attempt} (hlog : runLog conn calls = front ++ mid ++ back)
    (hreset : ∀ e ∈ mid, e.isReset = false) :
    (mid.map (Attempt.size scope)).sum ≤
      conn.limit scope + ((mid.filter Attempt.Unmetered).map (Attempt.size scope)).sum := by
  have hmetered := (metered_run ⟨hlimit, rfl, Charged.nil⟩ hcalls).charged.stretch
    (by rw [List.nil_append, hlog]) hreset
  have hsplit : ∀ mid : List Attempt, (mid.map (Attempt.size scope)).sum =
      (mid.map (Attempt.metered scope)).sum +
        ((mid.filter Attempt.Unmetered).map (Attempt.size scope)).sum := by
    intro mid
    induction mid with
    | nil => rfl
    | cons e mid ih =>
      rw [List.map_cons, List.sum_cons, List.map_cons, List.sum_cons, List.filter_cons, ih, Attempt.metered]
      by_cases he : e.Unmetered <;> simp [he] <;> omega
  rw [hsplit mid]
  exact Nat.add_le_add_right hmetered _

/-- The limits hold for calls that make no first transmission of a reliable message, whatever was sent
before. -/
theorem capsHold (conn : Connection) (calls : List ConnectionCall) (htraffic : ∀ c ∈ calls, c.Traffic)
    (hasks : ∀ c ∈ calls, c.Asks) : CapsHold conn calls := by
  intro scope hlimit front mid back hlog hreset
  have hle := sum_size_le htraffic hlimit hlog hreset
  have hnone : mid.filter Attempt.Unmetered = [] := by
    refine List.filter_eq_nil_iff.mpr fun e he hunmetered => ?_
    have hmem : e ∈ runLog conn calls := by
      rw [hlog]
      exact List.mem_append_left _ (List.mem_append_right _ he)
    exact asks_runLog hasks conn e hmem (of_decide_eq_true hunmetered)
  rw [hnone] at hle
  exact hle

/-- 100 bytes a second, and nothing sent yet. -/
def limitedConnection : Connection :=
  { address := somePeer, globalBandwidthLimit := 100 }

/-- A call at second `t` that sends `n` bytes. -/
def sendAt (t : Time) (n : ℕ) (r : PacketReliability) : ConnectionCall :=
  .send ⟨⟨t, fun _ => true⟩, true⟩ (List.replicate n 0) r 0

theorem capsHold_unreliable : CapsHold limitedConnection
    [sendAt 1 50 .unreliable, sendAt 1 50 .unreliable, sendAt 2 0 .unreliable] :=
  capsHold _ _ (by simp [sendAt, ConnectionCall.Traffic]) (by simp [sendAt, ConnectionCall.Asks, PacketReliability.isReliable])

theorem not_capsHold : ¬ ∀ (conn : Connection) (calls : List ConnectionCall),
    (∀ c ∈ calls, c.Traffic) → CapsHold conn calls := by
  intro h
  -- between the resets of the two empty messages, 116 bytes of a reliable one
  have hcaps := h limitedConnection
    [sendAt 1 0 .unreliable, sendAt 1 100 .reliableOrdered, sendAt 2 0 .unreliable]
    (by simp [sendAt, ConnectionCall.Traffic]) none (by decide)
  generalize hlog : runLog limitedConnection
    [sendAt 1 0 .unreliable, sendAt 1 100 .reliableOrdered, sendAt 2 0 .unreliable] = log at hcaps
  have hsum := hcaps (log.take 1) ((log.drop 1).take 2) (log.drop 3)
    (by rw [← List.take_add, List.take_append_drop])
  subst hlog
  revert hsum
  decide +kernel

end CampelloNet.Transport.Udp
