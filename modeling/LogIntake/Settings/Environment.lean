import LogIntake.Settings.Basic
import LogIntake.Text.Numeral
import LogIntake.Text.Utf8

/-!
# Settings from the environment

Every field can be overridden by an environment variable. A value that is not UTF-8 counts as not set. A
value that cannot be read changes nothing and gives a warning.
-/

namespace LogIntake

/-- The variables of an environment and their bytes. -/
abbrev Environment := List (String × Bytes)

namespace Environment

/-- The text of a variable, if it is set and is UTF-8. -/
def text? (env : Environment) (key : String) : Option String :=
  (env.lookup key).bind Utf8.decode?

end Environment

namespace Settings

/-- A variable that was ignored, and why. -/
structure Warning where
  key : String
  value : String
  error : String
  deriving DecidableEq, Repr

/-- Reads a flag. -/
def parseFlag : String → Except String Bool
  | "true" => .ok true
  | "false" => .ok false
  | _ => .error "provided string was not \x60true\x60 or \x60false\x60"

/-- Reads a number of a width. -/
def parseNumber (w : Width) (text : String) : Except String w.Word :=
  match Numeral.parse w.bound text with
  | .ok n => .ok (w.word n)
  | .error e => .error e.message

/-- Reads a value of a kind from text. -/
def Kind.parse : (k : Kind) → String → Except String k.Value
  | .text, s => .ok s
  | .number w, s => parseNumber w s
  | .flag, s => parseFlag s

/-- What the environment says of one field. -/
def readVariable (env : Environment) (f : Field) : Option (Except Warning f.Value) :=
  (env.text? f.envKey).map fun text =>
    match f.kind.parse text with
    | .ok v => .ok v
    | .error e => .error ⟨f.envKey, text, e⟩

end Settings

namespace Environment

/-- The values that the environment gives. -/
def layer (env : Environment) : Settings.Layer := fun f =>
  match Settings.readVariable env f with
  | some (.ok v) => some v
  | _ => none

/-- The variables that are set and cannot be read, in the order of the fields. -/
def warnings (env : Environment) : List Settings.Warning :=
  Settings.Field.all.filterMap fun f =>
    match Settings.readVariable env f with
    | some (.error w) => some w
    | _ => none

end Environment

end LogIntake
