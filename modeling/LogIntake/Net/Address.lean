/-!
# Network addresses

IP addresses of both families, and socket addresses, which add a port and, for a link-local address, the
number of its zone.
-/

namespace LogIntake

/-- An address of four bytes. -/
structure Ipv4 where
  a : UInt8
  b : UInt8
  c : UInt8
  d : UInt8
  deriving DecidableEq, Repr

/-- An address of eight groups of 16 bits. -/
structure Ipv6 where
  groups : Vector UInt16 8
  deriving DecidableEq, Repr

inductive IpAddress where
  | v4 (ip : Ipv4)
  | v6 (ip : Ipv6)
  deriving DecidableEq, Repr

/-- An address to which a socket is bound or connected. -/
inductive SocketAddress where
  | v4 (ip : Ipv4) (port : UInt16)
  | v6 (ip : Ipv6) (zone : UInt32) (port : UInt16)
  deriving DecidableEq, Repr

namespace SocketAddress

def ip : SocketAddress → IpAddress
  | .v4 ip _ => .v4 ip
  | .v6 ip _ _ => .v6 ip

def port : SocketAddress → UInt16
  | .v4 _ port => port
  | .v6 _ _ port => port

end SocketAddress

/-- Whether an address stands for every interface of the host. -/
def IpAddress.isUnspecified : IpAddress → Bool
  | .v4 ⟨a, b, c, d⟩ => a == 0 && b == 0 && c == 0 && d == 0
  | .v6 ip => ip.groups.toList.all (· == 0)

/-- The four bytes of two groups. -/
def Ipv4.ofGroups (high low : UInt16) : Ipv4 :=
  ⟨(high >>> 8).toUInt8, high.toUInt8, (low >>> 8).toUInt8, low.toUInt8⟩

/-- The two groups of four bytes. -/
def Ipv4.toGroups (ip : Ipv4) : UInt16 × UInt16 :=
  (ip.a.toUInt16 <<< 8 ||| ip.b.toUInt16, ip.c.toUInt16 <<< 8 ||| ip.d.toUInt16)

end LogIntake
