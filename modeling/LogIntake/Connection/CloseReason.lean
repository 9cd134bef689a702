/-!
# Why connections end

A connection ends gracefully when its peer has closed it or the daemon shuts down, and with an error
otherwise.
-/

namespace LogIntake

inductive CloseReason where
  | eof
  | io
  /-- A malformed unit came, and the policy is to end the connection. -/
  | decode
  /-- The stream lost its synchronisation. -/
  | framing
  | timeout
  /-- The queue refused a record. -/
  | queue
  | shutdown
  deriving DecidableEq, Repr

namespace CloseReason

/-- The label under which ended connections are counted. -/
def name : CloseReason → String
  | .eof => "eof"
  | .io => "io"
  | .decode => "decode"
  | .framing => "framing"
  | .timeout => "timeout"
  | .queue => "queue"
  | .shutdown => "shutdown"

def isGraceful : CloseReason → Bool
  | .eof | .shutdown => true
  | _ => false

end CloseReason

end LogIntake
