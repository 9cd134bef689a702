import LogIntake.Execution
import LogIntake.Health
import LogIntake.Text.Decimal

/-!
# The service

A service is a listener that can be started and stopped, again and again, with a queue that outlives its
runs. What goes wrong leaves the service as it was; only a run that ended badly is still a run that ended.
-/

namespace LogIntake

inductive Service.State where
  | initialized
  | running
  | stopped
  deriving DecidableEq, Repr

def Service.State.name : Service.State → String
  | .initialized => "initialized"
  | .running => "running"
  | .stopped => "stopped"

structure Service where
  options : ServiceOptions
  /-- The queue and the workers of the latest run, with what has been observed in all runs. -/
  intake : Intake
  state : Service.State := .initialized
  /-- The listener of the latest run. -/
  listener : Option Listener := none
  /-- The report of the last run that ended well. -/
  report : Option ListenerReport := none
  deriving DecidableEq, Repr

namespace Service

/-- A service that has not been started, if its options are valid. -/
def build (o : ServiceOptions) : Except IntakeError Service := do
  o.listener.validate
  o.queue.validate
  return { options := o, intake := { queue := .start o.queue } }

/-- The address that is listened on, while the service runs. -/
def address? (s : Service) : Option SocketAddress :=
  if s.state = .running then s.listener.bind Listener.localAddress else none

/-- The counters of the latest run. -/
def stats? (s : Service) : Option ListenerStats :=
  s.listener.map Listener.stats

/-- How an address is named in the settings: it may be the name of a host. -/
def addressText (s : Service) : String :=
  s!"{s.options.listener.bindAddress}:{s.options.listener.port.toNat}"

/-- Begins a run with a listener bound to an address. Workers of an earlier run that have not ended are left out from
here on, though in the program they go on beside the new ones. -/
def begin (s : Service) (address : SocketAddress) : Service :=
  { s with
    state := .running
    listener := some (.start s.options.listener (some address) [])
    intake := { s.intake with stopping := false, workers := [] } }

/-- Starts the service, if the socket could be bound. -/
def start (s : Service) (bound : Except IoError SocketAddress) : Service × Except Fault Unit :=
  if s.state = .running then (s, .error (.lifecycle .alreadyRunning))
  else
    match s.options.listener.validate, bound with
    | .error e, _ => (s, .error e.toFault)
    | .ok _, .error cause => (s, .error (IntakeError.bind s.addressText cause).toFault)
    | .ok _, .ok address => (s.begin address, .ok ())

/-- Runs a listener to its end after the signal to shut down. -/
def windUp (s : Service) (l : Listener) : Execution :=
  (Execution.stop { intake := s.intake, listener := some l }).complete

/-- Stops the service: the listener accepts nothing more, and its report is kept if it ended well. -/
def stop (s : Service) : Service × Except Fault Unit :=
  match s.state, s.listener with
  | .running, some l =>
    let run := s.windUp l
    let ended := { s with state := .stopped, intake := run.intake, listener := run.listener }
    match run.listener.bind Listener.result? with
    | some (.ok report) => ({ ended with report := some report }, .ok ())
    | some (.error e) => (ended, .error e.toFault)
    | none => (ended, .error (.lifecycle (.failed "listener task failed")))
  | _, _ => (s, .error (.lifecycle .notRunning))

/-- Whether nine tenths of the queue or more are in use. -/
def isCrowded (q : Queue) : Bool :=
  9 * Queue.measured q.capacity ≤ 10 * Queue.measured q.occupied

/-- How much of the queue is in use, in hundredths with one place. -/
def percentage (q : Queue) : String :=
  let (n, d) := Decimal.ofFloat (q.utilization * 100)
  Decimal.fixed 1 n d

/-- How the service fares. -/
def health (s : Service) : Health :=
  match s.state with
  | .initialized => .unhealthy "not started"
  | .stopped => .unhealthy "stopped"
  | .running =>
    if s.listener.any (!·.hasStopped) then
      if isCrowded s.intake.queue then .degraded s!"queue utilization high: {percentage s.intake.queue}%"
      else .healthy
    else .unhealthy "listener task exited"

/-- Pushes a record of the service's own. -/
def push (s : Service) (r : Record) : Service × PushResult :=
  let (intake, result) := s.intake.push r
  ({ s with intake }, result)

/-- Takes out up to `n` of the records that the queue holds now. -/
def drain (s : Service) (n : Nat) : Service × List Record :=
  let (queue, records) := s.intake.queue.drain n
  ({ s with intake.queue := queue }, records)

/-- Closes the queue. -/
def closeQueue (s : Service) : Service :=
  { s with intake.queue := s.intake.queue.close }

/-- The last connection that ended under each number. -/
def lastClosings (s : Service) : List Closing :=
  s.intake.ledger.closings.foldl
    (fun kept c => kept.filter (·.summary.connection != c.summary.connection) ++ [c]) []

end Service

end LogIntake
