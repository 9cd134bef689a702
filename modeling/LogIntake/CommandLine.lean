import LogIntake.Settings.Basic
import LogIntake.Text.Numeral

/-!
# The command line

Four options take a value, which stands in the next argument or behind an equals sign, or for the short
form directly behind the letter; one flag takes none. Arguments are judged from left to right. The value of
an option that stands in the next argument is judged when the next option comes, or at the end. What begins
with a hyphen is never the value of the option before it.
-/

namespace LogIntake

structure CommandLine where
  /-- Where the settings file is. -/
  configPath : Option String := none
  logLevel : Option String := none
  logFormat : Option String := none
  port : Option UInt16 := none
  /-- Whether only the settings are to be checked. -/
  validate : Bool := false
  deriving DecidableEq, Repr

namespace CommandLine

/-- Why the arguments do not give a command line to run. -/
inductive Failure where
  /-- The value of an option is missing or must not be empty. -/
  | invalidValue
  /-- The value of an option cannot be understood. -/
  | valueValidation
  | unknownArgument
  /-- An option comes twice. -/
  | argumentConflict
  /-- A flag was given a value. -/
  | tooManyValues
  | displayHelp
  | displayVersion
  deriving DecidableEq, Repr

/-- Help and version are asked for and are no failure of the program. -/
def Failure.exitCode : Failure → Nat
  | .displayHelp | .displayVersion => 0
  | _ => 2

/-- The options that take a value. -/
inductive Valued where
  | config
  | logLevel
  | logFormat
  | port
  deriving DecidableEq, Repr

/-- What an argument can name. -/
inductive Switch where
  | valued (option : Valued)
  | validate
  | help
  | version
  deriving DecidableEq, Repr

def long? : String → Option Switch
  | "config" => some (.valued .config)
  | "log-level" => some (.valued .logLevel)
  | "log-format" => some (.valued .logFormat)
  | "port" => some (.valued .port)
  | "validate" => some .validate
  | "help" => some .help
  | "version" => some .version
  | _ => none

def short? : Char → Option Switch
  | 'c' => some (.valued .config)
  | 'p' => some (.valued .port)
  | 'h' => some .help
  | 'V' => some .version
  | _ => none

/-- The number that a text writes with an optional sign, if it is a port. -/
def readPort (text : String) : Option UInt16 :=
  let number := match text.toList with
    | '-' :: digits =>
      match Numeral.digits 1 0 digits with
      | .ok n => if digits.isEmpty then none else some n
      | .error _ => none
    | _ => (Numeral.parse UInt16.size text).toOption
  number.map UInt16.ofNat

/-- Whether an option has been given before. -/
def has (line : CommandLine) : Valued → Bool
  | .config => line.configPath.isSome
  | .logLevel => line.logLevel.isSome
  | .logFormat => line.logFormat.isSome
  | .port => line.port.isSome

/-- Gives an option its value; `none` stands for a value that is missing. -/
def store (line : CommandLine) (option : Valued) (value : Option String) : Except Failure CommandLine :=
  match value with
  | none => .error .invalidValue
  | some v =>
    if line.has option then .error .argumentConflict
    else
      match option with
      | .config => if v.isEmpty then .error .invalidValue else .ok { line with configPath := some v }
      | .logLevel => .ok { line with logLevel := some v }
      | .logFormat => .ok { line with logFormat := some v }
      | .port =>
        match readPort v with
        | some port => .ok { line with port := some port }
        | none => .error .valueValidation

/-- The arguments judged so far. -/
structure Progress where
  line : CommandLine := {}
  /-- An option whose value is still to come, or has come and is still to be judged. -/
  pending : Option (Valued × Option String) := none
  /-- Whether a lone `--` has come: no argument after it is an option. -/
  escaped : Bool := false
  deriving DecidableEq, Repr

/-- Judges the value that is pending. -/
def Progress.settle (p : Progress) : Except Failure Progress :=
  match p.pending with
  | none => .ok p
  | some (option, value) => (p.line.store option value).map fun line => { p with line, pending := none }

/-- Takes a switch with the value attached to it, if there is one. -/
def Progress.take (p : Progress) (switch : Switch) (attached : Option String) : Except Failure Progress :=
  match switch, attached with
  | .valued option, none => p.settle.map fun q => { q with pending := some (option, none) }
  | .valued option, some v => p.settle.bind fun q => (q.line.store option (some v)).map fun line => { q with line }
  | _, some _ => .error .tooManyValues
  | .validate, none => p.settle.bind fun q =>
      if q.line.validate then .error .argumentConflict else .ok { q with line := { q.line with validate := true } }
  | .help, none => p.settle.bind fun _ => .error .displayHelp
  | .version, none => p.settle.bind fun _ => .error .displayVersion

/-- A text before and after the first equals sign in it. -/
def splitAtEquals (cs : List Char) : String × Option String :=
  let name := String.ofList (cs.takeWhile (· != '='))
  match cs.dropWhile (· != '=') with
  | _ :: value => (name, some (String.ofList value))
  | [] => (name, none)

/-- The value directly behind a letter, with or without an equals sign. -/
def attachedTo : List Char → Option String
  | [] => none
  | '=' :: value => some (String.ofList value)
  | value => some (String.ofList value)

/-- Takes an argument that is no option: the value that is waited for, or nothing that is known. -/
def Progress.plain (p : Progress) (argument : String) : Except Failure Progress :=
  match p.pending with
  | some (option, none) =>
    if p.escaped then .error .unknownArgument else .ok { p with pending := some (option, some argument) }
  | _ => .error .unknownArgument

/-- Judges the next argument. -/
def Progress.step (p : Progress) (argument : String) : Except Failure Progress :=
  if p.escaped then p.plain argument
  else
    match argument.toList with
    | ['-', '-'] => .ok { p with escaped := true }
    | '-' :: '-' :: rest =>
      let (name, attached) := splitAtEquals rest
      match long? name with
      | some switch => p.take switch attached
      | none => .error .unknownArgument
    | '-' :: letter :: rest =>
      match short? letter with
      | some (.valued option) => p.take (.valued option) (attachedTo rest)
      | some switch => p.take switch none
      | none => .error .unknownArgument
    | _ => p.plain argument

/-- The command line that the arguments give, the name of the program left out. -/
def parse (arguments : List String) : Except Failure CommandLine := do
  let p ← arguments.foldlM Progress.step {}
  return (← p.settle).line

/-- Where the settings file is, by default at a fixed place. -/
def path (line : CommandLine) : String :=
  line.configPath.getD "/etc/loghaul/loghaul.toml"

/-- The values that the command line gives to settings. -/
def layer (line : CommandLine) : Settings.Layer
  | .logLevel => line.logLevel
  | .logFormat => line.logFormat
  | .port => line.port
  | _ => none

/-! ## Texts -/

def version : String := "loghaul-daemon 0.1.0"

def usage : String := "Usage: loghaul-daemon [OPTIONS]"

/-- What the program tells about its options. -/
def help : List String :=
  [ "loghaul log ingestion daemon.",
    "",
    "Accepts framed log records from remote producers over TCP and hands them to a shared queue.",
    "",
    usage,
    "",
    "Options:",
    "  -c, --config <CONFIG>          Path of the settings file [default: /etc/loghaul/loghaul.toml]",
    "      --log-level <LOG_LEVEL>    Log level (trace, debug, info, warn, error)",
    "      --log-format <LOG_FORMAT>  Log format (json, pretty)",
    "  -p, --port <PORT>              Port to listen on",
    "      --validate                 Check the settings and exit without starting",
    "  -h, --help                     Print help",
    "  -V, --version                  Print version" ]

end CommandLine

end LogIntake
