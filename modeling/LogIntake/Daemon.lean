import LogIntake.Daemon.Exporter
import LogIntake.Net.Host
import LogIntake.Service
import LogIntake.Settings.Load

/-!
# The daemon

The daemon runs a service and drains its queue. When it shuts down, the service is stopped first, so that no
record comes any more, and then the queue is closed and what it still holds is taken out. The consumer of
the queue is given to the first drain task and is gone when that has ended.
-/

namespace LogIntake

namespace Daemon

/-- A log line with the part of the daemon it comes from. -/
structure Line where
  target : String
  line : LogLine
  deriving DecidableEq, Repr

/-- The task that takes records out of the queue. -/
inductive Drain where
  /-- The consumer waits for the first start. -/
  | unused
  /-- The task has taken so many records. -/
  | running (taken : Nat)
  | ended
  deriving DecidableEq, Repr

end Daemon

structure Daemon where
  settings : Settings
  service : Service
  drain : Daemon.Drain := .unused
  /-- Whether the task that updates the uptime is there. -/
  uptime : Bool := false
  log : List Daemon.Line := []
  deriving DecidableEq, Repr

namespace Daemon

/-- The most records that are taken out at a time. -/
def batchSize : Nat := 256

/-- A line about the daemon as a whole. -/
def Line.main (level : LogLevel) (message : String) : Line :=
  ⟨"loghaul_daemon", ⟨level, message⟩⟩

/-- A line about the course of a run. -/
def Line.course (level : LogLevel) (message : String) : Line :=
  ⟨"loghaul_daemon::orchestrator", ⟨level, message⟩⟩

/-- A line about the exporter. -/
def Line.exporter (line : LogLine) : Line :=
  ⟨"loghaul_daemon::metrics_server", line⟩

def write (d : Daemon) (level : LogLevel) (message : String) : Daemon :=
  { d with log := d.log ++ [.course level message] }

/-- Lets the exporter listen, and writes about it. -/
def openExporter (host : Host) (s : Settings.Metrics) : List Line × Except DaemonError SocketAddress :=
  match Exporter.address s with
  | .error e => ([], .error e)
  | .ok address =>
    match host.bind address with
    | .error cause => ((Exporter.warnings address).map .exporter, .error (.metricsExporter cause))
    | .ok bound =>
      ((Exporter.warnings address ++ [Exporter.opened]).map .exporter
          ++ [.course .debug "daemon metrics recorded"],
        .ok bound)

/-- The daemon for valid settings, not yet started, or why there is none; with the lines written meanwhile. -/
def ofService (s : Settings) (lines : List Line) : List Line × Except DaemonError Daemon :=
  match (ServiceOptions.ofSettings s).bind Service.build with
  | .error e => (lines, .error (.build e))
  | .ok service =>
    let log := lines ++ [.course .info "orchestrator initialized"]
    (log, .ok { settings := s, service, log })

/-- Builds the daemon; metrics are served from now on, if they are to be. -/
def build (host : Host) (s : Settings) : List Line × Except DaemonError Daemon :=
  match s.check with
  | .error e => ([], .error (.invalidSettings e))
  | .ok () =>
    if s.metrics.enabled then
      match openExporter host s.metrics with
      | (lines, .error e) => (lines, .error e)
      | (lines, .ok _) => ofService s lines
    else ofService s []

/-- The sockets of a host while the exporter listens on it. -/
def hostWithExporter (d : Daemon) (host : Host) : Host :=
  if d.settings.metrics.enabled then
    { host with listening := host.listening ++ (Exporter.address d.settings.metrics).toOption.toList }
  else host

/-- Starts the service, and the tasks that are still to be started. -/
def start (d : Daemon) (host : Host) : Daemon × Except DaemonError Unit :=
  let o := d.service.options.listener
  match d.service.start ((d.hostWithExporter host).listen o.bindAddress o.port) with
  | (service, .error e) => ({ d with service }, .error (.start e))
  | (service, .ok ()) =>
    let drain := match d.drain with
      | .unused => .running 0
      | other => other
    ({ d with service, drain, uptime := d.settings.metrics.enabled }, .ok ())

/-- Lets the drain task take what there is, up to a batch. -/
def consume (d : Daemon) : Daemon :=
  match d.drain with
  | .running taken =>
    let (service, records) := d.service.drain batchSize
    { d with service, drain := .running (taken + records.length) }
  | _ => d

/-- Ends the drain task: the queue is closed, and what it still holds is taken out. -/
def finishDrain (d : Daemon) : Daemon × Nat :=
  match d.drain with
  | .running taken =>
    let closed := d.service.closeQueue
    let (service, rest) := closed.drain closed.intake.queue.length
    let d := { d with service, drain := .ended }
    (if rest.isEmpty then d else d.write .info "draining remaining queued records", taken + rest.length)
  | _ => (d, 0)

/-- Ends the task that updates the uptime. -/
def finishUptime (d : Daemon) : Daemon :=
  if d.uptime then { d with uptime := false }.write .debug "uptime updater shutting down" else d

/-- Stops the service, ends all tasks, and tells how many records have been drained. -/
def shutdown (d : Daemon) : Daemon × Except DaemonError Nat :=
  let d := d.write .info "stopping ingest service"
  let (service, stopped) := d.service.stop
  let (d, drained) := finishDrain { d with service }
  let d := d.finishUptime
  match stopped with
  | .error e => (d, .error (.stop e))
  | .ok () => (d.write .info "loghaul-daemon shut down", .ok drained)

/-- Starts, and shuts down when there is reason to, about which some lines may be written. -/
def run (d : Daemon) (host : Host) (reason : List Line) : Daemon × Except DaemonError Unit :=
  match d.start host with
  | (d, .error e) => (d, .error e)
  | (d, .ok ()) =>
    let d := d.write .info "loghaul-daemon running"
    let (d, result) := { d with log := d.log ++ reason }.shutdown
    (d, result.map fun _ => ())

/-- How the service fares. -/
def health (d : Daemon) : Health :=
  d.service.health

end Daemon

end LogIntake
