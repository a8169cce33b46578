import CampelloNet.Transport.Interface
import CampelloNet.Transport.Udp.Receive

/-!
# The UDP transport as a transport

`UdpTransport` behind `ITransport`, with what surrounds it as part of the state: the clock and
`sendto`, the datagrams that the next poll finds, and those handed to the network so far.
-/

namespace CampelloNet.Transport

open Lib Udp

structure UdpHost where
  impl : Impl := {}
  platform : Platform
  env : Env
  /-- whether a socket can be opened -/
  opens : Bool := true
  /-- what the next poll receives -/
  incoming : List Arrival := []
  sent : List Datagram := []

namespace UdpTransport

/-- The host after a call that left its transport as `impl` and sent `ds`. -/
def put (host : UdpHost) (impl : Impl) (ds : List Datagram) : UdpHost :=
  { host with impl := impl, sent := host.sent ++ ds }

def bind (_address : Address) (host : UdpHost) : UdpHost × Bool :=
  let (impl, ds, ok) := Udp.bind host.env host.opens host.impl
  (put host impl ds, ok)

def connect (address : Address) (host : UdpHost) : UdpHost × Bool :=
  let (impl, ds, ok) := Udp.connect host.env host.opens address host.impl
  (put host impl ds, ok)

def disconnect (host : UdpHost) : UdpHost :=
  let (impl, ds) := Udp.disconnect host.env host.impl
  put host impl ds

def send (data : Bytes) (r : PacketReliability) (host : UdpHost) : UdpHost × Bool :=
  let (impl, ds, ok) := Udp.send host.env data r host.impl
  (put host impl ds, ok)

def sendTo (address : Address) (data : Bytes) (r : PacketReliability) (host : UdpHost) :
    UdpHost × Bool :=
  let (impl, ds, ok) := Udp.sendTo host.env address data r host.impl
  (put host impl ds, ok)

/-- Where `poll` has no defined result the host stays as it was. -/
def poll (host : UdpHost) : UdpHost :=
  match Udp.poll host.platform host.env host.env.now host.incoming host.impl with
  | none => host
  | some (impl, ds) => { put host impl ds with incoming := [] }

def popReceive (maxLength : ℕ) (host : UdpHost) : UdpHost × Option (Bytes × Address) :=
  let (impl, packet) := Udp.popReceive maxLength host.impl
  (put host impl [], packet)

def getConnectionRtt (address : Address) (host : UdpHost) : ℚ :=
  match findConnection host.impl address with
  | none => 0
  | some conn => conn.smoothedRtt

def iTransport : ITransport UdpHost where
  bind := bind
  connect := connect
  disconnect := disconnect
  isConnected host := Udp.isConnected host.impl
  send := send
  sendTo := sendTo
  poll := poll
  popReceive := popReceive
  getConnectionRtt := getConnectionRtt

end UdpTransport

end CampelloNet.Transport
