import LogIntake.Connection.CloseReason
import LogIntake.Error

/-!
# How a connection went

What is known of a connection when it has ended.
-/

namespace LogIntake

structure Summary where
  connection : Nat
  peer : SocketAddress
  /-- How many records were put into the queue. -/
  records : Nat
  /-- How many malformed units came. -/
  malformed : Nat
  /-- How many bytes of an unfinished unit were discarded at the end. -/
  discarded : Nat
  reason : CloseReason
  deriving DecidableEq, Repr

/-- The end of a connection. -/
structure Closing where
  summary : Summary
  /-- The error that ended it, if it did not end gracefully. -/
  error : Option IntakeError
  deriving DecidableEq, Repr

/-- The summary of a connection that ended gracefully, or the error that ended it. -/
def Closing.result (c : Closing) : Except IntakeError Summary :=
  match c.error with
  | none => .ok c.summary
  | some e => .error e

end LogIntake
