import LogIntake.Net.Address

/-!
# The text of an address

An IPv4 address is written with dots. An IPv6 address is written in groups of hexadecimal digits without
leading zeros, where the longest run of two or more zero groups, of several the first, is written `::`. An
IPv4 address inside of an IPv6 address keeps its dots.
-/

namespace LogIntake

def Ipv4.text (ip : Ipv4) : String :=
  s!"{ip.a.toNat}.{ip.b.toNat}.{ip.c.toNat}.{ip.d.toNat}"

namespace Ipv6

/-- A group in hexadecimal digits. -/
def group (n : UInt16) : String :=
  String.ofList (Nat.toDigits 16 n.toNat)

/-- How many zeros stand in front. -/
def zeros (groups : List UInt16) : Nat :=
  (groups.takeWhile (· == 0)).length

/-- The start and the length of the longest run of zeros among groups that begin at position `i`; of
several the first. -/
def longestRun (i : Nat) : List UInt16 → Nat × Nat
  | [] => (i, 0)
  | g :: rest =>
    let here := zeros (g :: rest)
    let later := longestRun (i + 1) rest
    if later.2 ≤ here then (i, here) else later

def joined (groups : List UInt16) : String :=
  ":".intercalate (groups.map group)

/-- The IPv4 address inside of the address, if it holds one. -/
def mapped? (ip : Ipv6) : Option Ipv4 :=
  match ip.groups.toList with
  | [0, 0, 0, 0, 0, 0xFFFF, high, low] => some (.ofGroups high low)
  | _ => none

def text (ip : Ipv6) : String :=
  match ip.mapped? with
  | some inner => "::ffff:" ++ inner.text
  | none =>
    let groups := ip.groups.toList
    let (start, length) := longestRun 0 groups
    if 1 < length then joined (groups.take start) ++ "::" ++ joined (groups.drop (start + length))
    else joined groups

end Ipv6

def IpAddress.text : IpAddress → String
  | .v4 ip => ip.text
  | .v6 ip => ip.text

/-- The text of a socket address; the zone is left out when it is zero. -/
def SocketAddress.text : SocketAddress → String
  | .v4 ip port => s!"{ip.text}:{port.toNat}"
  | .v6 ip zone port =>
    if zone = 0 then s!"[{ip.text}]:{port.toNat}" else s!"[{ip.text}%{zone.toNat}]:{port.toNat}"

end LogIntake
