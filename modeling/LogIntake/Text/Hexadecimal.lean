/-!
# Hexadecimal digits

Digits in base sixteen, in letters of either case, and the characters whose numbers they write.
-/

namespace LogIntake.Hexadecimal

/-- The value of a digit. -/
def digit? (c : Char) : Option Nat :=
  if '0' ≤ c && c ≤ '9' then some (c.toNat - '0'.toNat)
  else if 'a' ≤ c && c ≤ 'f' then some (c.toNat - 'a'.toNat + 10)
  else if 'A' ≤ c && c ≤ 'F' then some (c.toNat - 'A'.toNat + 10)
  else none

/-- The character with the number that digits write. -/
def char? (digits : List Char) : Option Char := do
  let n := (← digits.mapM digit?).foldl (fun n d => 16 * n + d) 0
  if n.isValidChar then some (Char.ofNat n) else none

end LogIntake.Hexadecimal
