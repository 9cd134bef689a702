import LogIntake.Toml.Item
import LogIntake.Toml.Text

/-!
# Unquoted scalars in TOML

Flags, integers in four bases, numbers with a fraction or an exponent, dates and times. Underscores may
stand between two digits.
-/

namespace LogIntake.Toml

/-- The values of digits, where single underscores may stand between them; at least one digit. -/
def grouped (base : Nat) (afterDigit : Bool) : List Char → Option (List Nat)
  | [] => if afterDigit then some [] else none
  | c :: rest =>
    if c = '_' then
      if afterDigit then grouped base false rest else none
    else
      match (Hexadecimal.digit? c).filter (· < base) with
      | some d => (grouped base true rest).map (d :: ·)
      | none => none

/-- The number that digits write. -/
def ofDigits (base : Nat) (digits : List Nat) : Nat :=
  digits.foldl (fun n d => base * n + d) 0

/-- The digits of a decimal number without superfluous zeros in front. -/
def decimal? (cs : List Char) : Option (List Nat) :=
  (grouped 10 false cs).filter fun digits => digits.length == 1 || digits.head? != some 0

/-- Splits off a sign. -/
def signed : List Char → Bool × List Char
  | '-' :: rest => (true, rest)
  | '+' :: rest => (false, rest)
  | cs => (false, cs)

/-- The integers that can be held: those of 128 bits with or without a sign. -/
def inRange (n : Int) : Bool :=
  -((1 <<< 127 : Nat) : Int) ≤ n && n < ((1 <<< 128 : Nat) : Int)

def integer? (cs : List Char) : Option Int :=
  let n : Option Int :=
    match cs with
    | '0' :: 'x' :: rest => (grouped 16 false rest).map (ofDigits 16 ·)
    | '0' :: 'o' :: rest => (grouped 8 false rest).map (ofDigits 8 ·)
    | '0' :: 'b' :: rest => (grouped 2 false rest).map (ofDigits 2 ·)
    | _ =>
      match signed cs with
      | (true, digits) => (decimal? digits).map fun ds => -(ofDigits 10 ds : Int)
      | (false, digits) => (decimal? digits).map fun ds => (ofDigits 10 ds : Int)
  n.filter inRange

/-! ## Numbers with a fraction or an exponent -/

def isGrouped (c : Char) : Bool := c.isDigit || c == '_'

/-- The number `digits * 10 ^ exponent`. -/
structure Scientific where
  digits : List Nat
  exponent : Int
  deriving DecidableEq, Repr

/-- The exponent that is all of a text. -/
def exponent? : List Char → Option Int
  | c :: rest =>
    if c == 'e' || c == 'E' then
      match signed rest with
      | (negative, digits) =>
        (grouped 10 false digits).map fun ds => if negative then -(ofDigits 10 ds : Int) else ofDigits 10 ds
    else none
  | [] => none

/-- A number with a fraction, an exponent or both, less its sign. -/
def scientific? (body : List Char) : Option Scientific := do
  let whole ← decimal? (body.takeWhile isGrouped)
  match body.dropWhile isGrouped with
  | '.' :: more =>
    let fraction ← grouped 10 false (more.takeWhile isGrouped)
    let last := more.dropWhile isGrouped
    let exponent ← if last.isEmpty then some 0 else exponent? last
    return ⟨whole ++ fraction, exponent - fraction.length⟩
  | rest => return ⟨whole, ← exponent? rest⟩

/-- The least number that is rounded to infinity in binary64: halfway from the largest finite number to
what would be the next one. -/
def overflow : Nat := 1 <<< 1024 - 1 <<< 970

/-- Whether a number is rounded to a finite one in binary64. As `overflow` has 309 digits, only numbers of
that many have to be compared with it. -/
def Scientific.isFinite (x : Scientific) : Bool :=
  let digits := x.digits.dropWhile (· == 0)
  let places := digits.length + x.exponent
  if digits.isEmpty || places < 309 then true
  else if 309 < places then false
  else ofDigits 10 digits * Nat.pow 10 x.exponent.toNat < overflow * Nat.pow 10 (-x.exponent).toNat

/-- Whether a text writes a number in binary64; infinity and what is not a number have names of their own. -/
def isFloat (cs : List Char) : Bool :=
  let body := (signed cs).2
  body == ['i', 'n', 'f'] || body == ['n', 'a', 'n'] || (scientific? body).any Scientific.isFinite

/-! ## Dates and times -/

/-- Reads a number of exactly `n` digits. -/
def fixed (n : Nat) (cs : List Char) : Option (Nat × List Char) :=
  let digits := cs.take n
  if digits.length = n && digits.all Char.isDigit then
    some (ofDigits 10 (digits.filterMap Hexadecimal.digit?), cs.drop n)
  else none

/-- Takes one character away. -/
def take (c : Char) : List Char → Option (List Char)
  | d :: rest => if c = d then some rest else none
  | [] => none

def isLeap (year : Nat) : Bool :=
  year % 4 == 0 && (year % 100 != 0 || year % 400 == 0)

def daysIn (year month : Nat) : Nat :=
  match month with
  | 2 => if isLeap year then 29 else 28
  | 4 | 6 | 9 | 11 => 30
  | _ => 31

/-- Reads a date. -/
def date (cs : List Char) : Option (List Char) := do
  let (year, cs) ← fixed 4 cs
  let (month, cs) ← fixed 2 (← take '-' cs)
  let (day, cs) ← fixed 2 (← take '-' cs)
  if 1 ≤ month ∧ month ≤ 12 ∧ 1 ≤ day ∧ day ≤ daysIn year month then some cs else none

/-- Reads a fraction of a second, if there is one. -/
def subsecond : List Char → Option (List Char)
  | '.' :: rest => if (rest.takeWhile Char.isDigit).isEmpty then none else some (rest.dropWhile Char.isDigit)
  | cs => some cs

/-- Reads a time of day; the seconds may be left out. -/
def time (cs : List Char) : Option (List Char) := do
  let (hour, cs) ← fixed 2 cs
  let (minute, cs) ← fixed 2 (← take ':' cs)
  if 23 < hour ∨ 59 < minute then none
  match cs with
  | ':' :: rest =>
    let (second, cs) ← fixed 2 rest
    if 60 < second then none else subsecond cs
  | _ => some cs

/-- Reads the distance from universal time, if there is one. -/
def offset (cs : List Char) : Option (List Char) :=
  match cs with
  | 'Z' :: rest => some rest
  | 'z' :: rest => some rest
  | '+' :: rest | '-' :: rest => do
    let (hour, cs) ← fixed 2 rest
    let (minute, cs) ← fixed 2 (← take ':' cs)
    if 23 < hour ∨ 59 < minute then none else some cs
  | _ => some cs

def isDate (cs : List Char) : Bool :=
  date cs == some []

/-- Whether the text is a date, a time, or both, with a distance from universal time only after both. -/
def isDateTime (cs : List Char) : Bool :=
  match date cs with
  | some [] => true
  | some (c :: rest) => (c == 'T' || c == 't' || c == ' ') && (time rest >>= offset) == some []
  | none => time cs == some []

/-! ## Any unquoted scalar -/

def isAtom (c : Char) : Bool :=
  c.isAlphanum || c == '_' || c == '-' || c == '+' || c == '.' || c == ':'

/-- The characters of the unquoted scalar in front of a text. A space may stand between date and time. -/
def atom (cs : List Char) : List Char × List Char :=
  let first := cs.takeWhile isAtom
  let rest := cs.dropWhile isAtom
  match rest with
  | ' ' :: d :: more =>
    if isDate first && d.isDigit then (first ++ ' ' :: (d :: more).takeWhile isAtom, (d :: more).dropWhile isAtom)
    else (first, rest)
  | _ => (first, rest)

def unquoted? (cs : List Char) : Option Scalar :=
  if cs == ['t', 'r', 'u', 'e'] then some (.boolean true)
  else if cs == ['f', 'a', 'l', 's', 'e'] then some (.boolean false)
  else if isFloat cs then some .float
  else if isDateTime cs then some .dateTime
  else (integer? cs).map .integer

end LogIntake.Toml
