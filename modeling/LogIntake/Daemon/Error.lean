import LogIntake.Error

/-!
# Errors of the daemon

What ends the daemon: each error tells what the daemon was about to do and what it was told.
-/

namespace LogIntake

inductive DaemonError where
  /-- The settings file, named where its path is known to the reader, cannot be used. -/
  | load (path : Option String) (cause : Fault)
  | invalidSettings (cause : Fault)
  | logFormat (name : String)
  | logLevel (name : String)
  /-- Log lines are already written elsewhere. -/
  | logInstalled
  | metricsAddress
  | metricsExporter (cause : IoError)
  | build (cause : IntakeError)
  | start (cause : Fault)
  | stop (cause : Fault)
  deriving DecidableEq, Repr

def DaemonError.message : DaemonError → String
  | .load none cause => s!"failed to load config: {cause.message}"
  | .load (some path) cause => s!"failed to load config {path}: {cause.message}"
  | .invalidSettings cause => s!"config validation failed: {cause.message}"
  | .logFormat name => s!"unknown log format '{name}', expected 'json' or 'pretty'"
  | .logLevel name => s!"invalid log level '{name}'"
  | .logInstalled => "failed to install tracing subscriber"
  | .metricsAddress => "invalid metrics listen address: invalid socket address syntax"
  | .metricsExporter cause => s!"failed to install metrics recorder: failed to create HTTP listener: {cause.message}"
  | .build cause => s!"failed to build ingest service: {cause.message}"
  | .start cause => s!"failed to start ingest service: {cause.message}"
  | .stop cause => s!"failed to stop ingest service: {cause.message}"

end LogIntake
