import LogIntake.Duration
import LogIntake.Frame
import LogIntake.IoError
import LogIntake.Net.Address.Printer

/-!
# Errors

Errors are told apart by their causes. An `IntakeError` arises while records are taken in and stays where
it arises: only a failed bind and a failed listening socket concern the whole. A `Fault` is what the parts
of the daemon report to each other, and every intake error has a fault that stands for it.
-/

namespace LogIntake

/-- Why a record was not put into the queue. -/
inductive PushError where
  | full (capacity : Nat)
  | timedOut (waited : Duration)
  | closed
  deriving DecidableEq, Repr

/-- The failures of pushes as they are counted. -/
inductive PushFailure where
  | full
  | timeout
  | closed
  deriving DecidableEq, Repr

def PushFailure.name : PushFailure → String
  | .full => "full"
  | .timeout => "timeout"
  | .closed => "closed"

def PushError.failure : PushError → PushFailure
  | .full _ => .full
  | .timedOut _ => .timeout
  | .closed => .closed

def PushError.message : PushError → String
  | .full capacity => s!"queue full (capacity {capacity})"
  | .timedOut waited => s!"queue push timed out after {waited.text}"
  | .closed => "queue closed"

/-- Why a decoder failed to hand out a frame. -/
inductive FrameError where
  | io (cause : IoError)
  | desync (reason : String)
  deriving DecidableEq, Repr

def FrameError.message : FrameError → String
  | .io cause => s!"io error: {cause.message}"
  | .desync reason => s!"lost frame synchronisation: {reason}"

/-- What goes wrong while records are taken in. -/
inductive IntakeError where
  /-- The address cannot be listened on. -/
  | bind (address : String) (cause : IoError)
  /-- One connection could not be accepted; later ones may. -/
  | accept (cause : IoError)
  /-- The listening socket is of no use any more. -/
  | listener (cause : IoError)
  | connection (peer : SocketAddress) (cause : IoError)
  | decode (peer : SocketAddress) (unit : Malformed)
  | framing (peer : SocketAddress) (reason : String)
  /-- No frame came in time. -/
  | readTimeout (peer : SocketAddress) (waited : Duration)
  | queue (cause : PushError)
  | setting (field reason : String)
  deriving DecidableEq, Repr

def IntakeError.message : IntakeError → String
  | .bind address cause => s!"bind error: {address}: {cause.message}"
  | .accept cause => s!"accept error: {cause.message}"
  | .listener cause => s!"listener error: {cause.message}"
  | .connection peer cause => s!"connection io error from {peer.text}: {cause.message}"
  | .decode peer unit => s!"decode error from {peer.text}: {unit.message}"
  | .framing peer reason => s!"framing error from {peer.text}: {reason}"
  | .readTimeout peer waited => s!"read timeout from {peer.text} after {waited.text}"
  | .queue cause => s!"queue error: {cause.message}"
  | .setting field reason => s!"config error: {field}: {reason}"

/-- The texts of the causes behind an error, the nearest first. -/
def IntakeError.causes : IntakeError → List String
  | .bind _ cause | .connection _ cause => [cause.message]
  | .decode _ unit => [unit.message]
  | .queue cause => [cause.message]
  | _ => []

def FrameError.causes : FrameError → List String
  | .io cause => [cause.message]
  | .desync _ => []

/-- What is wrong with the settings. -/
inductive ConfigError where
  | fileNotFound (path : String)
  | parseFailed (reason : String)
  | invalidValue (field reason : String)
  deriving DecidableEq, Repr

def ConfigError.message : ConfigError → String
  | .fileNotFound path => s!"config file not found: {path}"
  | .parseFailed reason => s!"failed to parse config: {reason}"
  | .invalidValue field reason => s!"invalid config value for '{field}': {reason}"

/-- What is wrong with starting, running or stopping a service. -/
inductive LifecycleError where
  | alreadyRunning
  | notRunning
  | initFailed (reason : String)
  | failed (reason : String)
  deriving DecidableEq, Repr

def LifecycleError.message : LifecycleError → String
  | .alreadyRunning => "pipeline already running"
  | .notRunning => "pipeline not running"
  | .initFailed reason => s!"pipeline init failed: {reason}"
  | .failed reason => s!"pipeline failed: {reason}"

/-- What the parts of the daemon report to each other. -/
inductive Fault where
  | config (cause : ConfigError)
  | lifecycle (cause : LifecycleError)
  | io (cause : IoError)
  deriving DecidableEq, Repr

def Fault.message : Fault → String
  | .config cause => s!"config error: {cause.message}"
  | .lifecycle cause => s!"pipeline error: {cause.message}"
  | .io cause => s!"io error: {cause.message}"

/-- The text of the cause behind a fault. -/
def Fault.causes : Fault → List String
  | .config cause => [cause.message]
  | .lifecycle cause => [cause.message]
  | .io cause => [cause.message]

/-- The fault that stands for an intake error: a bad setting, a failed start, or a failed run. -/
def IntakeError.toFault : IntakeError → Fault
  | .setting field reason => .config (.invalidValue field reason)
  | .bind address cause => .lifecycle (.initFailed (IntakeError.bind address cause).message)
  | other => .lifecycle (.failed other.message)

end LogIntake
