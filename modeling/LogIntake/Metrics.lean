import LogIntake.Connection.CloseReason
import LogIntake.Error
import LogIntake.Framing.Basic

/-!
# Metrics

Counters only grow, gauges rise and fall or are set. Some counters are kept apart by a label: a
reason or a framing. `Metrics` holds what has been touched so far.
-/

namespace LogIntake

inductive Counter where
  | accepted
  | rejected
  | acceptErrors
  | closed (reason : CloseReason)
  | decoded (framing : Framing)
  | decodeErrors (framing : Framing)
  | pushed
  | popped
  | pushFailures (reason : PushFailure)
  deriving DecidableEq, Repr

inductive Gauge where
  | activeConnections
  | queueDepth
  | uptime
  | buildInfo
  deriving DecidableEq, Repr

namespace Counter

def name : Counter → String
  | .accepted => "loghaul_ingest_connections_accepted_total"
  | .rejected => "loghaul_ingest_connections_rejected_total"
  | .acceptErrors => "loghaul_ingest_accept_errors_total"
  | .closed _ => "loghaul_ingest_connections_closed_total"
  | .decoded _ => "loghaul_ingest_records_decoded_total"
  | .decodeErrors _ => "loghaul_ingest_decode_errors_total"
  | .pushed => "loghaul_queue_records_pushed_total"
  | .popped => "loghaul_queue_records_popped_total"
  | .pushFailures _ => "loghaul_queue_push_failures_total"

/-- The label of a counter and its value. -/
def label? : Counter → Option (String × String)
  | .closed reason => some ("reason", reason.name)
  | .decoded framing => some ("framing", framing.name)
  | .decodeErrors framing => some ("framing", framing.name)
  | .pushFailures reason => some ("reason", reason.name)
  | _ => none

/-- The name with the label, if there is one. -/
def key (c : Counter) : String :=
  match c.label? with
  | some (label, value) => c.name ++ "\x7b" ++ label ++ "=" ++ value ++ "\x7d"
  | none => c.name

end Counter

def Gauge.name : Gauge → String
  | .activeConnections => "loghaul_ingest_active_connections"
  | .queueDepth => "loghaul_queue_depth"
  | .uptime => "loghaul_daemon_uptime_seconds"
  | .buildInfo => "loghaul_daemon_build_info"

/-- The counters and gauges touched so far. -/
structure Metrics where
  counters : List (Counter × Nat) := []
  gauges : List (Gauge × Nat) := []
  deriving DecidableEq, Repr

namespace Metrics

/-- The value of a counter; an untouched counter stands at 0. -/
def count (m : Metrics) (c : Counter) : Nat :=
  (m.counters.lookup c).getD 0

/-- The value of a gauge, if it has been set. -/
def gauge? (m : Metrics) (g : Gauge) : Option Nat :=
  m.gauges.lookup g

/-- Puts a value under a key, in place of the one there. -/
def put {κ ν : Type} [BEq κ] (k : κ) (v : ν) (entries : List (κ × ν)) : List (κ × ν) :=
  (k, v) :: entries.filter (fun e => !(e.1 == k))

/-- Lets a counter grow. -/
def add (m : Metrics) (c : Counter) (n : Nat) : Metrics :=
  { m with counters := put c (m.count c + n) m.counters }

/-- Sets a gauge. -/
def set (m : Metrics) (g : Gauge) (n : Nat) : Metrics :=
  { m with gauges := put g n m.gauges }

/-- Lets a gauge rise or fall from where it stands; it begins at 0. -/
def shift (m : Metrics) (g : Gauge) (f : Nat → Nat) : Metrics :=
  m.set g (f ((m.gauge? g).getD 0))

/-- What two parts have counted, where no gauge and no counter belongs to both. -/
def join (m n : Metrics) : Metrics :=
  { counters := m.counters ++ n.counters, gauges := m.gauges ++ n.gauges }

/-! ## Descriptions -/

/-- The two kinds of metrics. -/
inductive Instrument where
  | counter
  | gauge
  deriving DecidableEq, Repr

/-- Name, kind and meaning of every metric, by name. -/
def descriptions : List (String × Instrument × String) :=
  [ (Gauge.buildInfo.name, .gauge, "Build information (always 1)"),
    (Gauge.uptime.name, .gauge, "Daemon uptime in seconds"),
    (Counter.acceptErrors.name, .counter, "Transient accept failures (the listener kept running)"),
    (Gauge.activeConnections.name, .gauge, "Number of connection workers currently serving"),
    (Counter.accepted.name, .counter, "Total number of accepted producer connections"),
    ((Counter.closed .eof).name, .counter, "Closed connections by close reason"),
    (Counter.rejected.name, .counter, "Connections rejected because max_connections was reached"),
    ((Counter.decodeErrors .tagged).name, .counter, "Malformed units encountered while decoding"),
    ((Counter.decoded .tagged).name, .counter, "Records successfully decoded from producer streams"),
    (Gauge.queueDepth.name, .gauge, "Records currently waiting in the shared queue"),
    ((Counter.pushFailures .full).name, .counter, "Pushes refused by the shared queue (full, timeout, closed)"),
    (Counter.popped.name, .counter, "Records taken from the shared queue by the consumer"),
    (Counter.pushed.name, .counter, "Records handed to the shared queue") ]

end Metrics

end LogIntake
