import LogIntake.CommandLine
import LogIntake.Daemon
import LogIntake.Daemon.LogFilter

/-!
# The program

The program reads its command line and its settings, from the file, the environment and the command line in
this order. It then only checks them, or runs the daemon until it is told to shut down.
-/

namespace LogIntake.Program

/-- All that a run of the program leaves behind. -/
structure Outcome where
  exitCode : Nat
  /-- The lines written as answers, and the log if it is written for people to read. -/
  output : List String := []
  /-- The log if it is written for other programs to read. -/
  log : List LogLine := []
  /-- What the program complains about. -/
  complaint : Option String := none
  deriving DecidableEq, Repr

/-- What the program finds: its arguments, files, variables and the host. -/
structure Surroundings where
  arguments : List String
  file : String → Settings.FileState
  environment : Environment
  host : Host := {}

/-- The end of a program that has failed before it could write a log. -/
def failure (e : DaemonError) : Outcome :=
  { exitCode := 1, complaint := some ("Error: " ++ e.message) }

/-- The end of a program whose command line asks for help or the version, or cannot be understood. -/
def refusal (e : CommandLine.Failure) : Outcome :=
  match e with
  | .displayHelp => { exitCode := e.exitCode, output := CommandLine.help }
  | .displayVersion => { exitCode := e.exitCode, output := [CommandLine.version] }
  | _ => { exitCode := e.exitCode, complaint := some CommandLine.usage }

/-- The valid settings of a file, the environment and a command line. -/
def settings (line : CommandLine) (file : Settings.FileState) (env : Environment) : Except DaemonError Settings := do
  let base ← (Settings.ofFile line.path file).mapError (.load (some line.path))
  let s := (base.overlay env.layer).overlay line.layer
  s.check.mapError .invalidSettings
  return s

/-- A log line for people to read: it goes over several lines, the last of them empty. -/
def pretty (l : Daemon.Line) : List String :=
  [s!"  {l.line.level.name} {l.target}: {l.line.message}", ""]

/-- The lines that a filter lets through, in the form that the settings name. -/
def Outcome.withLog (o : Outcome) (filter : LogFilter) (s : Settings.General) (lines : List Daemon.Line) : Outcome :=
  let visible := lines.filter fun l => filter.allows l.target l.line.level
  if s.logFormat = "pretty" then { o with output := o.output ++ visible.flatMap pretty }
  else { o with log := o.log ++ visible.map (·.line) }

/-- Runs the daemon until the signal to shut down comes. -/
def serve (host : Host) (filter : LogFilter) (s : Settings) : Outcome :=
  let first := [Daemon.Line.main .info "loghaul-daemon starting"]
  match Daemon.build host s with
  | (lines, .error e) => (failure e).withLog filter s.general (first ++ lines)
  | (_, .ok d) =>
    let (d, result) := d.run host [.course .info "shutdown signal received"]
    let outcome := match result with
      | .error e => failure e
      | .ok () => { exitCode := 0 }
    outcome.withLog filter s.general (first ++ d.log)

/-- Runs the program with a command line. -/
def runLine (around : Surroundings) (line : CommandLine) : Outcome :=
  match settings line (around.file line.path) around.environment with
  | .error e => failure e
  | .ok s =>
    if line.validate then { exitCode := 0, output := ["configuration OK: " ++ line.path] }
    else
      match LogFilter.ofSettings (around.environment.text? "RUST_LOG") s.general with
      | .error e => failure e
      | .ok filter => serve around.host filter s

/-- Runs the program. -/
def run (around : Surroundings) : Outcome :=
  match CommandLine.parse around.arguments with
  | .error e => refusal e
  | .ok line => runLine around line

end LogIntake.Program
