import LogIntake.IoError
import LogIntake.Net.Address.Parser

/-!
# Names of hosts

A name of a host is an address, a short form of an address, or a name to ask for. The short form has up to
four numbers, in base ten, eight or sixteen, the last of which stands for all bytes that are left. Nobody
answers who is asked for a name, but a name that is no name is refused at once. Every host knows itself by
one name.
-/

namespace LogIntake

/-- The address with a number. -/
def Ipv4.ofNat (n : Nat) : Ipv4 :=
  ⟨(n >>> 24).toUInt8, (n >>> 16).toUInt8, (n >>> 8).toUInt8, n.toUInt8⟩

namespace HostName

/-- The number that digits of a base write. -/
def inBase? (base : Nat) (cs : List Char) : Option Nat :=
  match AddressText.digits base cs with
  | ([], _) => none
  | (ds, []) => some (AddressText.value base ds)
  | _ => none

/-- A number in base ten, after a zero in base eight, and after `0x` in base sixteen. -/
def number? : List Char → Option Nat
  | ['0'] => some 0
  | '0' :: 'x' :: rest | '0' :: 'X' :: rest => inBase? 16 rest
  | '0' :: rest => inBase? 8 rest
  | cs => inBase? 10 cs

/-- The number of an address of which `room` bytes are to be filled, the last number with all there are. -/
def fill (room : Nat) : List Nat → Option Nat
  | [] => none
  | [last] => if last < Nat.pow 256 room then some last else none
  | n :: rest =>
    if n < 256 && 1 < room then (fill (room - 1) rest).map (Nat.pow 256 (room - 1) * n + ·) else none

/-- The address that a short form stands for. -/
def shortForm? (name : String) : Option Ipv4 :=
  (((name.splitOn ".").mapM fun part => number? part.toList).bind (fill 4)).map .ofNat

/-- A long address with the number of a zone behind a percent sign. -/
def zoned? (name : String) : Option (Ipv6 × UInt32) :=
  match AddressText.ipv6 name.toList with
  | some (ip, cs) =>
    match AddressText.zone cs with
    | (zone, []) => some (ip, zone)
    | _ => none
  | none => none

/-- The host's own name, in letters of either case. -/
def isOwn (name : String) : Bool :=
  name.toList.map Char.toLower == "localhost".toList

/-- A part of a name: letters, digits, hyphens and underscores. -/
def isLabel (part : String) : Bool :=
  !part.isEmpty && part.length ≤ 63 && part.toList.all fun c => c.isAlphanum || c == '-' || c == '_'

/-- Whether a name can be asked for: parts with points between them, and perhaps one at the end. -/
def isName (name : String) : Bool :=
  let labels := name.splitOn "."
  let parts := if 1 < labels.length && labels.getLast? == some "" then labels.dropLast else labels
  (parts.all isLabel || name == ".") && (".".intercalate parts).length ≤ 253 && name.toList.head? != some '-'

/-- What comes of asking for a name. -/
def failure (name : String) : IoError :=
  if name.toList.contains '\x00' then .custom .invalidInput "file name contained an unexpected NUL byte"
  else
    .custom .uncategorized ("failed to lookup address information: " ++
      if isName name then "Temporary failure in name resolution" else "Name or service not known")

/-- The socket address on a port of the host that a name stands for. -/
def resolve (name : String) (port : UInt16) : Except IoError SocketAddress :=
  match Ipv4.parse? name, zoned? name, shortForm? name with
  | some ip, _, _ => .ok (.v4 ip port)
  | none, some (ip, zone), _ => .ok (.v6 ip zone port)
  | none, none, some ip => .ok (.v4 ip port)
  | none, none, none => if isOwn name then .ok (.v4 ⟨127, 0, 0, 1⟩ port) else .error (failure name)

end HostName

end LogIntake
