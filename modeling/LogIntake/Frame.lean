import LogIntake.Bytes
import LogIntake.Text.Utf8

/-!
# Frames

A decoder cuts the bytes of a connection into frames. A frame is a record, or a malformed unit that has
already been dropped from the stream. When the place of the next frame can no longer be known, the
stream has lost its synchronisation: `Desync` says why.
-/

namespace LogIntake

/-- A unit of the stream that is no record. -/
inductive Malformed where
  /-- A record longer than the limit; `size` is its whole length. -/
  | oversized (size limit : Nat)
  /-- Bytes outside of every record. -/
  | unframed (length : Nat)
  deriving DecidableEq, Repr

/-- What a decoder hands out. -/
inductive Frame where
  | record (payload : Bytes)
  | malformed (unit : Malformed)
  deriving DecidableEq, Repr

/-- Why the bounds of the next record cannot be found. -/
inductive Desync where
  | headerTooLong
  | headerNotNumeric
  | invalidHeader (header : Bytes)
  deriving DecidableEq, Repr

def Malformed.message : Malformed → String
  | .oversized size limit => s!"record too large: {size} bytes (max: {limit})"
  | .unframed length => s!"{length} bytes outside of a record frame"

def Desync.reason : Desync → String
  | .headerTooLong => "length header too long"
  | .headerNotNumeric => "length header is not numeric"
  | .invalidHeader header => "invalid length header '" ++ Utf8.lossy header ++ "'"

end LogIntake
