import LogIntake.Net.Address

/-!
# Reading an address

Each reader takes the characters it reads from the front of a text and answers with its value and the rest,
or with `none`. The numbers of an IPv4 address have at most three digits and no leading zero. An IPv6
address has eight groups of at most four hexadecimal digits, where `::` stands for one or more zero groups
and an IPv4 address may take the place of the last two groups.
-/

namespace LogIntake.AddressText

/-- The value of a digit in base ten or sixteen. -/
def digit? (base : Nat) (c : Char) : Option Nat :=
  let value :=
    if '0' ≤ c && c ≤ '9' then some (c.toNat - '0'.toNat)
    else if 'a' ≤ c && c ≤ 'f' then some (c.toNat - 'a'.toNat + 10)
    else if 'A' ≤ c && c ≤ 'F' then some (c.toNat - 'A'.toNat + 10)
    else none
  value.filter (· < base)

/-- The digits in front of a text, by value, and the rest. -/
def digits (base : Nat) : List Char → List Nat × List Char
  | [] => ([], [])
  | c :: rest =>
    match digit? base c with
    | some d => let (more, last) := digits base rest; (d :: more, last)
    | none => ([], c :: rest)

/-- The number that digits write. -/
def value (base : Nat) (ds : List Nat) : Nat :=
  ds.foldl (fun n d => base * n + d) 0

/-- A number under a bound, with all digits there are. -/
def number (base bound : Nat) (cs : List Char) : Option (Nat × List Char) :=
  match digits base cs with
  | ([], _) => none
  | (ds, rest) => if value base ds < bound then some (value base ds, rest) else none

/-- A number of an IPv4 address. -/
def octet (cs : List Char) : Option (UInt8 × List Char) :=
  match digits 10 cs with
  | ([], _) => none
  | (ds, rest) =>
    if 3 < ds.length || (ds.head? == some 0 && 1 < ds.length) || 255 < value 10 ds then none
    else some ((value 10 ds).toUInt8, rest)

/-- A group of an IPv6 address. -/
def group (cs : List Char) : Option (UInt16 × List Char) :=
  match digits 16 cs with
  | ([], _) => none
  | (ds, rest) => if 4 < ds.length then none else some ((value 16 ds).toUInt16, rest)

/-- Takes one character away. -/
def char (c : Char) : List Char → Option (List Char)
  | [] => none
  | d :: rest => if c = d then some rest else none

def ipv4 (cs : List Char) : Option (Ipv4 × List Char) := do
  let (a, cs) ← octet cs
  let (b, cs) ← octet (← char '.' cs)
  let (c, cs) ← octet (← char '.' cs)
  let (d, cs) ← octet (← char '.' cs)
  return (⟨a, b, c, d⟩, cs)

/-- Up to `room` groups with colons between them; `first` tells that none has been read. The last two may
be written as an IPv4 address, and the answer tells whether they are. -/
def groups (first : Bool) : Nat → List Char → List UInt16 × Bool × List Char
  | 0, cs => ([], false, cs)
  | room + 1, cs =>
    match if first then some cs else char ':' cs with
    | none => ([], false, cs)
    | some inner =>
      match if room = 0 then none else ipv4 inner with
      | some (ip, rest) => let (high, low) := ip.toGroups; ([high, low], true, rest)
      | none =>
        match group inner with
        | none => ([], false, cs)
        | some (g, rest) => let (more, dotted, last) := groups false room rest; (g :: more, dotted, last)

/-- The address of groups around a `::`. -/
def around (front back : List UInt16) : Ipv6 :=
  let all := front ++ List.replicate (8 - (front.length + back.length)) 0 ++ back
  ⟨Vector.ofFn fun i => all.getD i.val 0⟩

def ipv6 (cs : List Char) : Option (Ipv6 × List Char) :=
  match groups true 8 cs with
  | (front, dotted, rest) =>
    if front.length = 8 then some (around front [], rest)
    else if dotted then none
    else do
      let rest ← char ':' (← char ':' rest)
      let (back, _, rest) := groups true (7 - front.length) rest
      return (around front back, rest)

def port (cs : List Char) : Option (UInt16 × List Char) := do
  let (n, rest) ← number 10 UInt16.size (← char ':' cs)
  return (n.toUInt16, rest)

/-- A zone in decimal digits after a percent sign; 0 if there is none. -/
def zone (cs : List Char) : UInt32 × List Char :=
  match char '%' cs >>= number 10 UInt32.size with
  | some (n, rest) => (n.toUInt32, rest)
  | none => (0, cs)

def socketV4 (cs : List Char) : Option (SocketAddress × List Char) := do
  let (ip, cs) ← ipv4 cs
  let (p, cs) ← port cs
  return (.v4 ip p, cs)

def socketV6 (cs : List Char) : Option (SocketAddress × List Char) := do
  let (ip, cs) ← ipv6 (← char '[' cs)
  let (z, cs) := zone cs
  let (p, cs) ← port (← char ']' cs)
  return (.v6 ip z p, cs)

/-- What a reader reads from a text that it reads to the end. -/
def whole {α : Type} (read : List Char → Option (α × List Char)) (text : String) : Option α :=
  match read text.toList with
  | some (a, []) => some a
  | _ => none

end LogIntake.AddressText

namespace LogIntake

def Ipv4.parse? (text : String) : Option Ipv4 :=
  AddressText.whole AddressText.ipv4 text

def Ipv6.parse? (text : String) : Option Ipv6 :=
  AddressText.whole AddressText.ipv6 text

def IpAddress.parse? (text : String) : Option IpAddress :=
  ((Ipv4.parse? text).map .v4).or ((Ipv6.parse? text).map .v6)

def SocketAddress.parse? (text : String) : Option SocketAddress :=
  AddressText.whole (fun cs => (AddressText.socketV4 cs).or (AddressText.socketV6 cs)) text

end LogIntake
