/-!
# Decimal numerals

Texts that write natural numbers in base ten, as settings and the environment give them: an optional plus
sign and ASCII digits, no blanks. A numeral is read from the left, and the first thing wrong with it is
reported.
-/

namespace LogIntake.Numeral

inductive Error where
  /-- There is no character at all. -/
  | empty
  | invalidDigit
  /-- The number does not lie under the bound. -/
  | tooLarge
  deriving DecidableEq, Repr

def Error.message : Error → String
  | .empty => "cannot parse integer from empty string"
  | .invalidDigit => "invalid digit found in string"
  | .tooLarge => "number too large to fit in target type"

/-- The value of an ASCII digit. -/
def digit? (c : Char) : Option Nat :=
  if '0' ≤ c && c ≤ '9' then some (c.toNat - '0'.toNat) else none

/-- Reads the digits that follow a number under `bound`. -/
def digits (bound : Nat) (n : Nat) : List Char → Except Error Nat
  | [] => .ok n
  | c :: rest =>
    match digit? c with
    | none => .error .invalidDigit
    | some d => if 10 * n + d < bound then digits bound (10 * n + d) rest else .error .tooLarge

/-- The number under `bound` that a text writes. -/
def parse (bound : Nat) (text : String) : Except Error Nat :=
  match text.toList with
  | [] => .error .empty
  | ['+'] => .error .invalidDigit
  | '+' :: rest => digits bound 0 rest
  | cs => digits bound 0 cs

end LogIntake.Numeral
