/-!
# Kinds of failure

The kinds into which failures of input and output fall, and the text of a failure of which only the kind is
known.
-/

namespace LogIntake.IoError

/-- Kinds of failure. -/
inductive Kind where
  | notFound | permissionDenied | connectionRefused | connectionReset | connectionAborted | notConnected
  | addrInUse | addrNotAvailable | brokenPipe | wouldBlock | notADirectory | isADirectory | invalidInput
  | invalidData | timedOut | interrupted | unsupported | unexpectedEof | outOfMemory | other | uncategorized
  deriving DecidableEq, Repr

def Kind.message : Kind → String
  | .notFound => "entity not found"
  | .permissionDenied => "permission denied"
  | .connectionRefused => "connection refused"
  | .connectionReset => "connection reset"
  | .connectionAborted => "connection aborted"
  | .notConnected => "not connected"
  | .addrInUse => "address in use"
  | .addrNotAvailable => "address not available"
  | .brokenPipe => "broken pipe"
  | .wouldBlock => "operation would block"
  | .notADirectory => "not a directory"
  | .isADirectory => "is a directory"
  | .invalidInput => "invalid input parameter"
  | .invalidData => "invalid data"
  | .timedOut => "timed out"
  | .interrupted => "operation interrupted"
  | .unsupported => "unsupported"
  | .unexpectedEof => "unexpected end of file"
  | .outOfMemory => "out of memory"
  | .other => "other error"
  | .uncategorized => "uncategorized error"

end LogIntake.IoError
