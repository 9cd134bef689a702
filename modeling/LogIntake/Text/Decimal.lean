/-!
# Decimal numbers

Numbers written in decimal digits, with zeros in front up to a width, or with a fixed number of places. A
number that lies halfway between two neighbours goes to the even one.
-/

namespace LogIntake.Decimal

/-- The digits of `n`, with zeros in front up to `width` digits. -/
def padded (width n : Nat) : List Char :=
  let digits := Nat.toDigits 10 n
  List.replicate (width - digits.length) '0' ++ digits

/-- The whole number next to a quotient; of two that are equally near, the even one. -/
def roundDiv (n d : Nat) : Nat :=
  let q := n / d
  let twice := 2 * (n % d)
  if twice < d then q else if d < twice then q + 1 else q + q % 2

/-- A quotient with so many places. -/
def fixed (places n d : Nat) : String :=
  let unit := Nat.pow 10 places
  let parts := roundDiv (n * unit) d
  toString (parts / unit) ++ "." ++ String.ofList (padded places (parts % unit))

/-- A finite number that is not negative, as a quotient. -/
def ofFloat (x : Float) : Nat × Nat :=
  let bits := x.toBits.toNat
  let exponent := bits >>> 52 % 2048
  let fraction := bits % (1 <<< 52)
  if exponent = 0 then (fraction, 1 <<< 1074)
  else if 1075 ≤ exponent then ((1 <<< 52 + fraction) <<< (exponent - 1075), 1)
  else (1 <<< 52 + fraction, 1 <<< (1075 - exponent))

end LogIntake.Decimal
