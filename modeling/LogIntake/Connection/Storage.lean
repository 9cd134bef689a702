/-!
# Storage for received bytes

Received bytes lie in a piece of storage until they are consumed, and the payload of a record goes on to lie
where it was received. One read takes as much as there is room behind what has been received. When there is
none, the storage has to be arranged anew: what is left is moved to the front, or the storage grows. As long
as a record lies in the storage that somebody still holds, neither can be done: then what is left goes to a
new piece of storage.

How much a read takes shows where a fault in the stream is noticed only by what has come so far.
-/

namespace LogIntake

structure Storage where
  size : Nat
  /-- How many bytes in front have been consumed. -/
  consumed : Nat := 0
  /-- The least size of a new piece. -/
  least : Nat
  /-- The number of the first record that lies here. -/
  firstRecord : Option Nat := none
  deriving DecidableEq, Repr

namespace Storage

/-- Storage smaller than this says nothing about the size of new pieces. -/
def minLeast : Nat := 1024

/-- No new piece has to be larger than this. -/
def maxLeast : Nat := 65536

/-- The smallest size to which storage grows. -/
def minSize : Nat := 8

/-- Storage of a size. A new piece later on has at least the greatest power of two that is no larger, within
bounds. -/
def start (size : Nat) : Storage :=
  { size, least := if size < minLeast then 0 else 1 <<< Nat.log2 (min size maxLeast) }

/-- The room behind so many bytes that are not consumed. -/
def room (s : Storage) (held : Nat) : Nat :=
  s.size - (s.consumed + held)

def consume (s : Storage) (n : Nat) : Storage :=
  { s with consumed := s.consumed + n }

/-- Notes that the record of a number lies here. -/
def lend (s : Storage) (number : Nat) : Storage :=
  { s with firstRecord := s.firstRecord.or (some number) }

/-- Whether a record lies here that is still in use, as all are up to a number. -/
def isLent (s : Storage) (newest : Option Nat) : Bool :=
  s.firstRecord.any fun first => newest.any (first ≤ ·)

/-- Moves what is held to the front if that makes room for `n` bytes and at least as much has been consumed;
otherwise grows. -/
def arrange (s : Storage) (held n : Nat) : Storage :=
  if held + n ≤ s.size ∧ held ≤ s.consumed then { s with consumed := 0 }
  else { s with size := max (max (2 * s.size) (s.consumed + held + n)) minSize }

/-- A new piece with what is held and room for `n` bytes. -/
def renew (s : Storage) (held n : Nat) : Storage :=
  { size := max (held + n) s.least, least := s.least }

/-- Makes room for `n` bytes behind those that are held, where `newest` is the number of the newest record
still in use. -/
def reserve (s : Storage) (newest : Option Nat) (held n : Nat) : Storage :=
  if n ≤ s.room held then s
  else if s.isLent newest then s.renew held n
  else s.arrange held n

theorem le_room_reserve (s : Storage) (newest : Option Nat) (held n : Nat) :
    n ≤ (s.reserve newest held n).room held := by
  unfold reserve
  split
  · assumption
  · split
    · simp only [renew, room]
      omega
    · unfold arrange
      split <;> simp only [room] <;> omega

end Storage

end LogIntake
