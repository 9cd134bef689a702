import LogIntake.Text.Decimal

/-!
# Durations

Spans of time, counted in nanoseconds. The text of a duration has the largest unit of `s`, `ms`, `µs` and
`ns` that gives an integer part of at least one, and no zeros at the end of its fraction.
-/

namespace LogIntake

/-- A span of time. -/
structure Duration where
  nanos : Nat
  deriving DecidableEq, Repr, Inhabited

namespace Duration

def ofNanos (secs nanos : Nat) : Duration := ⟨secs * 1000000000 + nanos⟩

def ofMillis (n : Nat) : Duration := ⟨n * 1000000⟩

def ofSecs (n : Nat) : Duration := ⟨n * 1000000000⟩

/-- The whole seconds. -/
def secs (d : Duration) : Nat := d.nanos / 1000000000

/-- The nanoseconds past the whole seconds. -/
def subsecNanos (d : Duration) : Nat := d.nanos % 1000000000

/-- The whole milliseconds. -/
def millis (d : Duration) : Nat := d.nanos / 1000000

/-- A point and the digits of `n` parts of `10 ^ width`, without zeros at the end; nothing for no part. -/
def fraction (width n : Nat) : List Char :=
  if n = 0 then [] else '.' :: ((Decimal.padded width n).reverse.dropWhile (· == '0')).reverse

/-- So many whole units and parts of `10 ^ width` of one. -/
def inUnit (whole part width : Nat) (unit : String) : String :=
  toString whole ++ String.ofList (fraction width part) ++ unit

/-- The text of a duration, such as `1.5ms`. -/
def text (d : Duration) : String :=
  let n := d.nanos
  if 1000000000 ≤ n then inUnit (n / 1000000000) (n % 1000000000) 9 "s"
  else if 1000000 ≤ n then inUnit (n / 1000000) (n % 1000000) 6 "ms"
  else if 1000 ≤ n then inUnit (n / 1000) (n % 1000) 3 "µs"
  else inUnit n 0 0 "ns"

end Duration

/-- A point of time: the span since the clock began. -/
abbrev Instant := Duration

/-- The point of time after a span. -/
def Duration.plus (t : Instant) (d : Duration) : Instant := ⟨t.nanos + d.nanos⟩

def Duration.isZero (d : Duration) : Bool := d.nanos == 0

end LogIntake
