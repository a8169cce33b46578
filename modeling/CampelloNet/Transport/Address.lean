import CampelloNet.Lib.Bytes

/-!
# Endpoint addresses

The native `Address`: a `sockaddr_storage` that holds nothing yet, an IPv4 or an IPv6 socket
address. `operator==` compares family, port and IP bytes only; the flow label and scope of an IPv6
address are always zero (the constructors zero them, `set_raw_storage` clears them), so equality of
addresses is equality here. `rawStorage` lists the `raw_storage_size()` bytes that hashing an
address reads, in the Linux layout of `sockaddr_in` and `sockaddr_in6`.
-/

namespace CampelloNet.Transport

open Lib

inductive Address
  /-- A default-constructed address, `valid_ = false`. -/
  | invalid
  | inet (port : UInt16) (ip : Vector UInt8 4)
  | inet6 (port : UInt16) (ip : Vector UInt8 16)
  deriving DecidableEq, Repr

namespace Address

/-- The valid bytes of the socket address: family (host order), port (network order), then the
IP bytes and the padding or zeroed fields around them. -/
def rawStorage : Address → Bytes
  | invalid => []
  | inet port ip => [2, 0] ++ be16 port ++ ip.toList ++ List.replicate 8 0
  | inet6 port ip => [10, 0] ++ be16 port ++ List.replicate 4 0 ++ ip.toList ++ List.replicate 4 0

/-- The address of IPv4 `a.b.c.d`, stored as an IPv4-mapped IPv6 address. -/
def ofIPv4 (a b c d : UInt8) (port : UInt16) : Address :=
  .inet6 port #v[0, 0, 0, 0, 0, 0, 0, 0, 0, 0, 0xFF, 0xFF, a, b, c, d]

end Address

end CampelloNet.Transport
