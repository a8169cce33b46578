import CampelloNet.Transport.Udp.ImplSpec

/-!
# What each public call does

The public methods of a transport as seen from the connection with one address: `poll` after its
receive loop, the sends, and the calls that touch no channel at all. Between calls no connection is
Disconnecting, because `poll` erases those before it returns (`Settled`).
-/

namespace CampelloNet.Transport.Udp

open Lib

/-- No connection is waiting to be erased. -/
def Impl.Settled (impl : Impl) : Prop := ∀ c ∈ impl.connections, c.state ≠ .disconnecting

/-- What holds of the connections between two calls. -/
structure Impl.Ok (impl : Impl) : Prop where
  distinct : impl.Distinct
  settled : impl.Settled

theorem Impl.Settled.putConnection {impl : Impl} (h : impl.Settled) {conn : Connection}
    (hs : conn.state ≠ .disconnecting) : (putConnection impl conn).Settled := by
  intro c hc
  rcases mem_upsert hc with rfl | hc
  · exact hs
  · exact h c hc

/-- A call that leaves the channels to `a` alone and sends `a` nothing new. -/
structure Quiet (impl impl' : Impl) (a : Address) (ds : List Datagram) : Prop where
  view : ∀ ch, impl'.view a ch = impl.view a ch
  emits : ∀ d ∈ ds, d.dest = a → Emits (impl.conn a) (Waiting (impl.conn a)) d

theorem Quiet.of_conn {impl impl' : Impl} {a : Address} {ds : List Datagram}
    (h : impl'.conn a = impl.conn a) (hd : ∀ d ∈ ds, d.dest ≠ a) : Quiet impl impl' a ds :=
  ⟨fun ch => by rw [Impl.view, h, Impl.view], fun d hds ha => absurd ha (hd d hds)⟩

theorem Emits.dest {conn : Connection} {known : Fin 4 → Message → Prop} {d : Datagram}
    (h : Emits conn known d) : d.dest = conn.address := by
  cases h <;> rfl

/-! ### The second half of a poll -/

theorem service_eq (io : Io) (t : Time) (conns : List Connection) :
    service io t conns = (conns.map fun c => (serviceConnection io t c).1,
      conns.flatMap fun c => (serviceConnection io t c).2) := by
  induction conns with
  | nil => rfl
  | cons conn conns ih => rw [service, ih]; rfl

/-- The connection to `a` after a poll is the serviced one, unless it was erased. -/
theorem findConnection_finishPoll (env : Env) (t : Time) {impl : Impl} (h : impl.Distinct)
    (a : Address) :
    findConnection (finishPoll env t impl).1 a =
      ((findConnection impl a).map fun c => (serviceConnection (impl.io env) t c).1).filter
        fun c => !c.expired t := by
  have haddr : ∀ c, (serviceConnection (impl.io env) t c).1.address = c.address := fun c =>
    (serviceConnection_spec (impl.io env) t c).1.address
  have hnodup : ((impl.connections.map fun c => (serviceConnection (impl.io env) t c).1).map
      Connection.address).Nodup := by
    rw [map_key_map haddr]
    exact h
  rw [finishPoll, service_eq]
  exact (lookup_filter hnodup a _).trans (congrArg _ (lookup_map haddr a impl.connections))

theorem finishPoll_ok (env : Env) (t : Time) {impl : Impl} (h : impl.Distinct) :
    (finishPoll env t impl).1.Ok := by
  have haddr : ∀ c, (serviceConnection (impl.io env) t c).1.address = c.address := fun c =>
    (serviceConnection_spec (impl.io env) t c).1.address
  rw [finishPoll, service_eq]
  refine ⟨?_, fun c hc => ?_⟩
  · refine List.Nodup.sublist (List.Sublist.map _ List.filter_sublist) ?_
    rw [cleanupFragments, map_key_map haddr]
    exact h
  · have hexp := (List.mem_filter.mp hc).2
    simp only [Connection.expired, Bool.not_eq_true', decide_eq_false_iff_not, not_or] at hexp
    exact hexp.1

theorem finishPoll_quiet (env : Env) (t : Time) {impl : Impl} (h : impl.Distinct) (a : Address)
    (halive : (findConnection impl a).isSome → (findConnection (finishPoll env t impl).1 a).isSome) :
    Quiet impl (finishPoll env t impl).1 a (finishPoll env t impl).2 := by
  have hfind := findConnection_finishPoll env t h a
  refine ⟨fun ch => ?_, fun d hd ha => ?_⟩
  · cases hf : findConnection impl a with
    | none =>
      rw [hf] at hfind
      rw [Impl.view, Impl.conn, hfind, Impl.view, Impl.conn, hf]
      rfl
    | some conn =>
      rw [hf, Option.map_some] at hfind
      rw [hf] at halive
      obtain ⟨conn', hconn'⟩ := Option.isSome_iff_exists.mp (halive rfl)
      have hserv : conn' = (serviceConnection (impl.io env) t conn).1 := by
        rw [hconn'] at hfind
        exact (Option.some.inj (Option.filter_eq_some_iff.mp hfind.symm).1).symm
      rw [Impl.view, Impl.conn_of_find hconn', Impl.view, Impl.conn_of_find hf, hserv]
      exact (serviceConnection_spec (impl.io env) t conn).1.view ch
  · have hd' : d ∈ impl.connections.flatMap fun c => (serviceConnection (impl.io env) t c).2 := by
      have : (finishPoll env t impl).2 = (service (impl.io env) t impl.connections).2 := rfl
      rwa [this, service_eq] at hd
    obtain ⟨conn, hconn, hd'⟩ := List.mem_flatMap.mp hd'
    have hemit := (serviceConnection_spec (impl.io env) t conn).2 d hd'
    have hfind : findConnection impl a = some conn := by
      rw [← ha, hemit.dest]
      exact lookup_of_mem h hconn
    rwa [Impl.conn_of_find hfind]

/-! ### Sends -/

theorem sendToConnection_address (io : Io) (conn : Connection) (data : Bytes)
    (r : PacketReliability) (priority : UInt8) :
    (sendToConnection io conn data r priority).1.address = conn.address := by
  by_cases h : conn.state = .disconnecting
  · rw [sendToConnection, if_pos (by simp [h])]
  · exact (sendToConnection_spec io data r priority h).address

theorem sendToConnection_dest (io : Io) (conn : Connection) (data : Bytes) (r : PacketReliability)
    (priority : UInt8) {d : Datagram} (hd : d ∈ (sendToConnection io conn data r priority).2.1) :
    d.dest = conn.address := by
  by_cases h : conn.state = .disconnecting
  · rw [sendToConnection, if_pos (by simp [h])] at hd
    cases hd
  · exact ((sendToConnection_spec io data r priority h).emits d hd).dest

theorem sendToConnection_state (io : Io) {conn : Connection} (data : Bytes)
    (r : PacketReliability) (priority : UInt8) (h : conn.state ≠ .disconnecting) :
    (sendToConnection io conn data r priority).1.state ≠ .disconnecting := by
  rw [(sendToConnection_spec io data r priority h).state]
  exact h

theorem sendEach_eq (io : Io) (data : Bytes) (r : PacketReliability) (conns : List Connection) :
    (sendEach io data r conns).1 = conns.map (fun c => (sendToConnection io c data r 0).1) ∧
      (sendEach io data r conns).2.1 =
        conns.flatMap fun c => (sendToConnection io c data r 0).2.1 := by
  induction conns with
  | nil => exact ⟨rfl, rfl⟩
  | cons conn conns ih =>
    rw [sendEach, List.map_cons, List.flatMap_cons, ← ih.1, ← ih.2]
    exact ⟨rfl, rfl⟩

/-- The addresses `send` sends to. -/
def Impl.targets (impl : Impl) : List Address :=
  match impl.mode with
  | .none => []
  | .client => (impl.connections.map Connection.address).take 1
  | .server => impl.connections.map Connection.address

/-- A call that sends `data` on the connection with `a`, and to `a` nothing else. -/
def Sends (impl impl' : Impl) (a : Address) (data : Bytes) (r : PacketReliability)
    (ds : List Datagram) : Prop :=
  ∃ out, Sent (impl.conn a) data r (impl'.conn a) out ∧ ∀ d ∈ ds, d.dest = a → d ∈ out

/-- Sending on the connections of a list, some of those of a transport. -/
theorem mem_sent {impl : Impl} (hok : impl.Ok) (io : Io) (data : Bytes) (r : PacketReliability)
    {conns : List Connection} (hsub : conns ⊆ impl.connections) {conn : Connection}
    (hconn : conn ∈ impl.connections) {d : Datagram}
    (hd : d ∈ conns.flatMap fun c => (sendToConnection io c data r 0).2.1)
    (hdest : d.dest = conn.address) :
    conn ∈ conns ∧ d ∈ (sendToConnection io conn data r 0).2.1 := by
  obtain ⟨c, hc, hd⟩ := List.mem_flatMap.mp hd
  have heq : c = conn := by
    have h := lookup_of_mem hok.distinct (hsub hc)
    rw [← sendToConnection_dest io c data r 0 hd, hdest, lookup_of_mem hok.distinct hconn] at h
    exact (Option.some.inj h).symm
  exact ⟨heq ▸ hc, heq ▸ hd⟩

/-- What `send` makes of the connection with `a`. -/
structure SendSpec (impl impl' : Impl) (a : Address) (data : Bytes) (r : PacketReliability)
    (ds : List Datagram) (targets : Prop) : Prop where
  alive : (findConnection impl' a).isSome = (findConnection impl a).isSome
  sends : targets → (findConnection impl a).isSome ∧ Sends impl impl' a data r ds
  quiet : ¬targets → impl'.conn a = impl.conn a ∧ ∀ d ∈ ds, d.dest ≠ a

theorem send_server (data : Bytes) (r : PacketReliability) {impl : Impl}
    (hok : impl.Ok) (io : Io) (a : Address) :
    SendSpec impl { impl with connections := (sendEach io data r impl.connections).1 } a data r
      (sendEach io data r impl.connections).2.1 (a ∈ impl.connections.map Connection.address) := by
  have haddr := fun c => sendToConnection_address io c data r 0
  obtain ⟨hconns, hds⟩ := sendEach_eq io data r impl.connections
  have hfind : findConnection { impl with connections := (sendEach io data r impl.connections).1 } a =
      (findConnection impl a).map fun c => (sendToConnection io c data r 0).1 := by
    rw [findConnection, hconns]
    exact lookup_map haddr a impl.connections
  refine ⟨by rw [hfind, Option.isSome_map], fun ha => ?_, fun ha => ?_⟩
  · obtain ⟨conn, hconn, rfl⟩ := List.mem_map.mp ha
    have hf : findConnection impl conn.address = some conn := lookup_of_mem hok.distinct hconn
    rw [hf, Option.map_some] at hfind
    refine ⟨by rw [hf]; rfl, _, ?_, fun d hd hdest => (mem_sent hok io data r (List.Subset.refl _)
      hconn (by rwa [hds] at hd) hdest).2⟩
    rw [Impl.conn_of_find hf, Impl.conn_of_find hfind]
    exact sendToConnection_spec io data r 0 (hok.settled conn hconn)
  · have hf : findConnection impl a = none := by
      refine List.find?_eq_none.mpr fun c hc => ?_
      simpa using fun h : c.address = a => ha (h ▸ List.mem_map_of_mem hc)
    rw [hf, Option.map_none] at hfind
    refine ⟨by rw [Impl.conn, hfind, Impl.conn, hf], fun d hd hdest => ha ?_⟩
    rw [hds] at hd
    obtain ⟨c, hc, hd⟩ := List.mem_flatMap.mp hd
    rw [← hdest, sendToConnection_dest io c data r 0 hd]
    exact List.mem_map_of_mem hc

theorem send_client (data : Bytes) (r : PacketReliability) {impl : Impl} (hok : impl.Ok) (io : Io)
    {conn : Connection} {conns : List Connection} (hc : impl.connections = conn :: conns)
    (a : Address) :
    SendSpec impl
      { impl with connections := (sendToConnection io conn data r 0).1 :: conns } a data r
      (sendToConnection io conn data r 0).2.1 (a = conn.address) := by
  have haddr := sendToConnection_address io conn data r 0
  have hmem : conn ∈ impl.connections := by rw [hc]; exact List.mem_cons_self
  have hf : findConnection impl conn.address = some conn := lookup_of_mem hok.distinct hmem
  have hself : findConnection
      { impl with connections := (sendToConnection io conn data r 0).1 :: conns } conn.address =
      some (sendToConnection io conn data r 0).1 := by
    rw [findConnection, lookup_cons, if_pos haddr]
  have hother : a ≠ conn.address → findConnection
      { impl with connections := (sendToConnection io conn data r 0).1 :: conns } a =
      findConnection impl a := fun h => by
    rw [findConnection, lookup_cons, if_neg (by rw [haddr]; exact Ne.symm h), findConnection, hc,
      lookup_cons, if_neg (Ne.symm h)]
  refine ⟨?_, ?_, fun ha => ?_⟩
  · by_cases ha : a = conn.address
    · rw [ha, hself, hf]
      rfl
    · rw [hother ha]
  · rintro rfl
    refine ⟨by rw [hf]; rfl, _, ?_, fun d hd _ => hd⟩
    rw [Impl.conn_of_find hf, Impl.conn_of_find hself]
    exact sendToConnection_spec io data r 0 (hok.settled conn hmem)
  · refine ⟨by rw [Impl.conn, hother ha, Impl.conn], fun d hd hdest => ha ?_⟩
    rw [← hdest, sendToConnection_dest io conn data r 0 hd]

/-- A call that returns before it sends anything. -/
theorem SendSpec.refused {impl : Impl} {a : Address} {data : Bytes} {r : PacketReliability}
    {targets : Prop} (h : ¬targets) : SendSpec impl impl a data r [] targets :=
  ⟨rfl, fun ht => absurd ht h, fun _ => ⟨rfl, fun d hd => by cases hd⟩⟩

theorem send_spec (env : Env) (data : Bytes) (r : PacketReliability) {impl : Impl}
    (hok : impl.Ok) (a : Address) :
    SendSpec impl (send env data r impl).1 a data r (send env data r impl).2.1
      (a ∈ impl.targets) := by
  rcases hm : impl.mode with _ | _ | _
  · have ht : impl.targets = [] := by rw [Impl.targets, hm]
    have hs : send env data r impl = (impl, [], false) := by rw [send, hm]
    rw [ht, hs]
    exact .refused List.not_mem_nil
  · have ht : impl.targets = impl.connections.map Connection.address := by rw [Impl.targets, hm]
    have hs : send env data r impl =
        ({ impl with connections := (sendEach (impl.io env) data r impl.connections).1 },
          (sendEach (impl.io env) data r impl.connections).2.1,
          (sendEach (impl.io env) data r impl.connections).2.2) := by rw [send, hm]
    rw [ht, hs]
    exact send_server data r hok (impl.io env) a
  · have ht : impl.targets = (impl.connections.map Connection.address).take 1 := by
      rw [Impl.targets, hm]
    rw [ht]
    rcases hc : impl.connections with _ | ⟨conn, conns⟩
    · have hs : send env data r impl = (impl, [], false) := by rw [send, hm, hc]
      rw [hs]
      exact .refused List.not_mem_nil
    · have hs : send env data r impl =
          ({ impl with connections := (sendToConnection (impl.io env) conn data r 0).1 :: conns },
            (sendToConnection (impl.io env) conn data r 0).2.1,
            (sendToConnection (impl.io env) conn data r 0).2.2) := by rw [send, hm, hc]
      have hmem : a ∈ ((conn :: conns).map Connection.address).take 1 ↔ a = conn.address := by simp
      rw [hs, hmem]
      exact send_client data r hok (impl.io env) hc a

theorem send_ok (env : Env) (data : Bytes) (r : PacketReliability) {impl : Impl} (hok : impl.Ok) :
    (send env data r impl).1.Ok := by
  have haddr := fun c => sendToConnection_address (impl.io env) c data r 0
  have hst := fun c hc => sendToConnection_state (impl.io env) data r 0 (hok.settled c hc)
  rcases hm : impl.mode with _ | _ | _
  · rw [send, hm]
    exact hok
  · have hconns : (send env data r impl).1.connections =
        impl.connections.map fun c => (sendToConnection (impl.io env) c data r 0).1 := by
      rw [send, hm]
      exact (sendEach_eq (impl.io env) data r impl.connections).1
    refine ⟨?_, fun c hc => ?_⟩
    · rw [Impl.Distinct, hconns, map_key_map haddr]
      exact hok.distinct
    · rw [hconns] at hc
      obtain ⟨c', hc', rfl⟩ := List.mem_map.mp hc
      exact hst c' hc'
  · rcases hc : impl.connections with _ | ⟨conn, conns⟩
    · rw [send, hm, hc]
      exact hok
    · have hconns : (send env data r impl).1.connections =
          (sendToConnection (impl.io env) conn data r 0).1 :: conns := by rw [send, hm, hc]
      refine ⟨?_, fun c hc' => ?_⟩
      · have := hok.distinct
        rw [Impl.Distinct, hc, List.map_cons] at this
        rwa [Impl.Distinct, hconns, List.map_cons, haddr]
      · rw [hconns] at hc'
        rcases List.mem_cons.mp hc' with rfl | hc'
        · exact hst conn (hc ▸ List.mem_cons_self)
        · exact hok.settled c (hc ▸ List.mem_cons_of_mem _ hc')

theorem sendWithPriority_spec (env : Env) (address : Address) (data : Bytes)
    (r : PacketReliability) (priority : UInt8) {impl : Impl} (hok : impl.Ok) (a : Address) :
    SendSpec impl (sendWithPriority env address data r priority impl).1 a data r
      (sendWithPriority env address data r priority impl).2.1
      (a = address ∧ (findConnection impl address).isSome) := by
  rw [sendWithPriority]
  cases hf : findConnection impl address with
  | none => exact .refused (by simp)
  | some conn =>
    have haddr : conn.address = address := lookup_key hf
    have haddr' := (sendToConnection_address (impl.io env) conn data r priority).trans haddr
    have hself := findConnection_putConnection_self impl haddr'
    refine ⟨?_, ?_, fun ha => ?_⟩
    · by_cases ha : a = address
      · rw [ha, hself, hf]
        rfl
      · rw [findConnection_putConnection_ne impl (by rw [haddr']; exact Ne.symm ha)]
    · rintro ⟨rfl, -⟩
      refine ⟨by rw [hf]; rfl, _, ?_, fun d hd _ => hd⟩
      rw [Impl.conn_of_find hf, Impl.conn_of_find hself]
      exact sendToConnection_spec _ data r priority (hok.settled conn (lookup_mem hf))
    · have hne : a ≠ address := fun h => ha ⟨h, by simp⟩
      refine ⟨?_, fun d hd hdest => hne ?_⟩
      · rw [Impl.conn, findConnection_putConnection_ne impl (by rw [haddr']; exact Ne.symm hne),
          Impl.conn]
      · rw [← hdest, sendToConnection_dest _ conn data r priority hd, haddr]

theorem sendWithPriority_ok (env : Env) (address : Address) (data : Bytes)
    (r : PacketReliability) (priority : UInt8) {impl : Impl} (hok : impl.Ok) :
    (sendWithPriority env address data r priority impl).1.Ok := by
  rw [sendWithPriority]
  cases hf : findConnection impl address with
  | none => exact hok
  | some conn =>
    exact ⟨hok.distinct.putConnection _, hok.settled.putConnection
      (sendToConnection_state _ data r priority (hok.settled conn (lookup_mem hf)))⟩

/-! ### Calls that touch no channel -/

theorem popReceive_connections (maxLength : Nat) (impl : Impl) :
    (popReceive maxLength impl).1.connections = impl.connections := by
  rw [popReceive]
  cases impl.receiveQueue[impl.receiveReadIdx]? <;> rfl

/-- Writing back the connection with `address` under changed limits. -/
structure Limits (impl impl' : Impl) : Prop where
  ok : impl.Ok → impl'.Ok
  alive : ∀ a, (findConnection impl' a).isSome = (findConnection impl a).isSome
  view : ∀ a ch, impl'.view a ch = impl.view a ch

theorem limits_putConnection {impl : Impl} {address : Address} {conn conn' : Connection}
    (hf : findConnection impl address = some conn) (ha : Alike conn conn')
    (hs : conn'.state = conn.state) : Limits impl (putConnection impl conn') := by
  have haddr : conn'.address = address := ha.address.trans (lookup_key hf)
  have hself := findConnection_putConnection_self impl haddr
  have hother : ∀ a, a ≠ address → findConnection (putConnection impl conn') a =
      findConnection impl a := fun a h =>
    findConnection_putConnection_ne impl (by rw [haddr]; exact Ne.symm h)
  refine ⟨fun hok => ⟨hok.distinct.putConnection _, hok.settled.putConnection ?_⟩, fun a => ?_,
    fun a ch => ?_⟩
  · rw [hs]
    exact hok.settled conn (lookup_mem hf)
  · by_cases h : a = address
    · rw [h, hself, hf]
      rfl
    · rw [hother a h]
  · by_cases h : a = address
    · rw [h, Impl.view, Impl.conn_of_find hself, Impl.view, Impl.conn_of_find hf, ha.view]
    · rw [Impl.view, Impl.conn, hother a h, Impl.view, Impl.conn]

theorem setConnectionBandwidthLimit_limits (address : Address) (n : UInt32) (impl : Impl) :
    Limits impl (setConnectionBandwidthLimit address n impl) := by
  rw [setConnectionBandwidthLimit]
  cases hf : findConnection impl address with
  | none => exact ⟨id, fun _ => rfl, fun _ _ => rfl⟩
  | some conn => exact limits_putConnection hf ⟨rfl, fun _ => rfl⟩ rfl

theorem setChannelBandwidthLimit_limits (address : Address) (r : PacketReliability) (n : UInt32)
    (impl : Impl) : Limits impl (setChannelBandwidthLimit address r n impl) := by
  rw [setChannelBandwidthLimit]
  cases hf : findConnection impl address with
  | none => exact ⟨id, fun _ => rfl, fun _ _ => rfl⟩
  | some conn => exact limits_putConnection hf (Alike.rfl.setChannel (by rfl)) rfl

end CampelloNet.Transport.Udp
