import LogIntake.Error
import LogIntake.IoError
import LogIntake.Settings.Environment
import LogIntake.Settings.File
import LogIntake.Settings.Validation
import LogIntake.Text.Utf8

/-!
# Loading settings

Settings come from a file, over the defaults, and from the environment, over the file. They are then
validated.
-/

namespace LogIntake.Settings

/-- What stands at the path of a settings file. -/
inductive FileState where
  | missing
  | directory
  /-- A file that cannot be read. -/
  | unreadable (cause : IoError)
  | content (bytes : Bytes)
  deriving DecidableEq, Repr

/-- The text of a file. -/
def FileState.read : FileState → Except IoError String
  | .missing => .error (.os 2)
  | .directory => .error (.os 21)
  | .unreadable cause => .error cause
  | .content bytes =>
    match Utf8.decode? bytes with
    | some text => .ok text
    | none => .error (.custom .invalidData "stream did not contain valid UTF-8")

/-- The settings that a text writes. -/
def parse (text : String) : Except Fault Settings :=
  match parse? text with
  | some s => .ok s
  | none => .error (.config (.parseFailed "malformed settings file"))

/-- The settings of a file. -/
def ofFile (path : String) (file : FileState) : Except Fault Settings :=
  match file.read with
  | .ok text => parse text
  | .error e => .error (if e.kind = .notFound then .config (.fileNotFound path) else .io e)

/-- Validates settings that are to be used. -/
def check (s : Settings) : Except Fault Unit :=
  s.validate.mapError .config

/-- The valid settings of a file and an environment. -/
def load (path : String) (file : FileState) (env : Environment) : Except Fault Settings := do
  let s := (← ofFile path file).overlay env.layer
  s.check
  return s

end LogIntake.Settings
