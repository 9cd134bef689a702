import LogIntake.Net.Address.Printer
import LogIntake.Net.HostName

/-!
# The host

What the host answers when a socket is to be bound or connected. The host stands alone: it has no route to
any address, so that sockets can listen on it, but no client reaches them. It lets every address of four
bytes be bound, and of the longer ones only that which stands for all, and those which hold a shorter one.
-/

namespace LogIntake

/-- The address of four bytes that a longer one may hold. -/
def IpAddress.plain : IpAddress → IpAddress
  | .v4 ip => .v4 ip
  | .v6 ip => (ip.mapped?.map .v4).getD (.v6 ip)

/-- A host, with the sockets that already listen on it. -/
structure Host where
  listening : List SocketAddress := []
  deriving DecidableEq, Repr

namespace Host

/-- Whether an address is for a group of hosts. -/
def isMulticast (ip : Ipv6) : Bool :=
  ip.groups.head &&& 0xff00 == 0xff00

/-- Whether an address is for the hosts on one link, which must be named by its zone. -/
def isLinkLocal (ip : Ipv6) : Bool :=
  ip.groups.head &&& 0xffc0 == 0xfe80

/-- Why a socket cannot be bound to a long address of its own; the only link is the first. -/
def refusal? (ip : Ipv6) (zone : UInt32) : Option IoError :=
  if ip.mapped?.isSome || (IpAddress.v6 ip).isUnspecified then none
  else if isMulticast ip || isLinkLocal ip && zone == 0 then some (.os 22)
  else if isLinkLocal ip && zone != 1 then some (.os 19)
  else some (.os 99)

/-- Whether two sockets with one port get in each other's way. -/
def overlaps (a b : IpAddress) : Bool :=
  a.plain == b.plain || a.plain.isUnspecified || b.plain.isUnspecified

/-- Whether a socket already listens where another one is to; port 0 stands for any that is free. -/
def isTaken (h : Host) (address : SocketAddress) : Bool :=
  address.port != 0 && h.listening.any fun other => other.port == address.port && overlaps other.ip address.ip

/-- Lets a socket listen on an address. -/
def bind (h : Host) (address : SocketAddress) : Except IoError SocketAddress :=
  match address with
  | .v4 .. => if h.isTaken address then .error (.os 98) else .ok address
  | .v6 ip zone port =>
    match refusal? ip zone with
    | some cause => .error cause
    | none => if h.isTaken address then .error (.os 98) else .ok (.v6 ip 0 port)

/-- Lets a socket listen on a port of the address that a name stands for. -/
def listen (h : Host) (name : String) (port : UInt16) : Except IoError SocketAddress :=
  (HostName.resolve name port).bind h.bind

/-- A client finds no way to an address. -/
def connect (_ : Host) (address : SocketAddress) : Except IoError Unit :=
  match address.ip.plain with
  | .v4 _ => .error (.os 101)
  | .v6 _ => .error (.os 99)

end Host

end LogIntake
