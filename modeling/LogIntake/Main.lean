import LogIntake.Daemon.Program

/-!
# The command line program

Reads the settings file and the environment, runs the program, and writes what it leaves behind.
-/

namespace LogIntake

/-- What stands at a path. -/
def fileAt (path : String) : IO Settings.FileState := do
  try
    return .content (← IO.FS.readBinFile path).toList
  catch e =>
    return match e with
      | .noFileOrDirectory .. => .missing
      | .inappropriateType _ 20 _ => .unreadable (.os 20)
      | .inappropriateType .. => .directory
      | .permissionDenied .. => .unreadable (.os 13)
      | other => .unreadable (.custom .other other.toString)

/-- The variables of the environment that the program knows. -/
def knownVariables : IO Environment := do
  let names := Settings.Field.all.map Settings.Field.envKey ++ ["RUST_LOG"]
  names.filterMapM fun name => do
    return (← IO.getEnv name).map fun value => (name, Utf8.encode value)

end LogIntake

open LogIntake in
def main (arguments : List String) : IO UInt32 := do
  let path := match CommandLine.parse arguments with
    | .ok line => line.path
    | .error _ => ""
  let content ← fileAt path
  let outcome := Program.run { arguments, file := fun _ => content, environment := ← knownVariables }
  for line in outcome.output do
    IO.println line
  for line in outcome.log do
    IO.println line.text
  for line in outcome.complaint do
    IO.eprintln line
  return .ofNat outcome.exitCode
