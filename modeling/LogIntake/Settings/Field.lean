/-!
# Fields of the settings

The settings have 19 fields in four sections. A field knows its section, its name in a settings file, the
environment variable that overrides it, and the kind of its values. Whatever treats all fields alike goes
over `Field.all`.
-/

namespace LogIntake.Settings

/-- How many bits a number may take. -/
inductive Width where
  | w16
  | w32
  | w64
  deriving DecidableEq, Repr

namespace Width

def bits : Width → Nat
  | .w16 => 16
  | .w32 => 32
  | .w64 => 64

abbrev Word : Width → Type
  | .w16 => UInt16
  | .w32 => UInt32
  | .w64 => UInt64

/-- The least number that does not fit. -/
def bound (w : Width) : Nat := 1 <<< w.bits

def toNat : (w : Width) → w.Word → Nat
  | .w16, n => UInt16.toNat n
  | .w32, n => UInt32.toNat n
  | .w64, n => UInt64.toNat n

def word : (w : Width) → Nat → w.Word
  | .w16, n => UInt16.ofNat n
  | .w32, n => UInt32.ofNat n
  | .w64, n => UInt64.ofNat n

/-- The word for a number, if it fits. -/
def ofNat? (w : Width) (n : Nat) : Option w.Word :=
  if n < w.bound then some (w.word n) else none

end Width

/-- What the values of a field are. -/
inductive Kind where
  | text
  | number (width : Width)
  | flag
  deriving DecidableEq, Repr

abbrev Kind.Value : Kind → Type
  | .text => String
  | .number w => w.Word
  | .flag => Bool

/-- A section of a settings file. -/
inductive Section where
  | general
  | ingest
  | queue
  | metrics
  deriving DecidableEq, Repr

namespace Section

def all : List Section := [.general, .ingest, .queue, .metrics]

def name : Section → String
  | .general => "general"
  | .ingest => "ingest"
  | .queue => "queue"
  | .metrics => "metrics"

end Section

inductive Field where
  | logLevel
  | logFormat
  | bindAddress
  | port
  | backlog
  | maxConnections
  | readTimeoutSecs
  | maxRecordSize
  | recvBufferSize
  | framing
  | decodeErrorPolicy
  | acceptBackoffMs
  | shutdownGraceSecs
  | capacity
  | backpressure
  | pushTimeoutMs
  | metricsEnabled
  | metricsListenAddr
  | metricsPort
  deriving DecidableEq, Repr

namespace Field

/-- All fields, section by section. -/
def all : List Field :=
  [.logLevel, .logFormat, .bindAddress, .port, .backlog, .maxConnections, .readTimeoutSecs, .maxRecordSize,
    .recvBufferSize, .framing, .decodeErrorPolicy, .acceptBackoffMs, .shutdownGraceSecs, .capacity,
    .backpressure, .pushTimeoutMs, .metricsEnabled, .metricsListenAddr, .metricsPort]

def inSection : Field → Section
  | .logLevel | .logFormat => .general
  | .capacity | .backpressure | .pushTimeoutMs => .queue
  | .metricsEnabled | .metricsListenAddr | .metricsPort => .metrics
  | _ => .ingest

/-- The name within its section. -/
def name : Field → String
  | .logLevel => "log_level"
  | .logFormat => "log_format"
  | .bindAddress => "bind_address"
  | .port => "port"
  | .backlog => "backlog"
  | .maxConnections => "max_connections"
  | .readTimeoutSecs => "read_timeout_secs"
  | .maxRecordSize => "max_record_size"
  | .recvBufferSize => "recv_buffer_size"
  | .framing => "framing"
  | .decodeErrorPolicy => "decode_error_policy"
  | .acceptBackoffMs => "accept_backoff_ms"
  | .shutdownGraceSecs => "shutdown_grace_secs"
  | .capacity => "capacity"
  | .backpressure => "backpressure"
  | .pushTimeoutMs => "push_timeout_ms"
  | .metricsEnabled => "enabled"
  | .metricsListenAddr => "listen_addr"
  | .metricsPort => "port"

/-- The name by which errors speak of the field. -/
def path (f : Field) : String :=
  f.inSection.name ++ "." ++ f.name

/-- The environment variable that overrides the field. -/
def envKey (f : Field) : String :=
  "LOGHAUL_" ++ f.inSection.name.toUpper ++ "_" ++ f.name.toUpper

abbrev kind : Field → Kind
  | .logLevel => .text
  | .logFormat => .text
  | .bindAddress => .text
  | .port => .number .w16
  | .backlog => .number .w32
  | .maxConnections => .number .w64
  | .readTimeoutSecs => .number .w64
  | .maxRecordSize => .number .w64
  | .recvBufferSize => .number .w64
  | .framing => .text
  | .decodeErrorPolicy => .text
  | .acceptBackoffMs => .number .w64
  | .shutdownGraceSecs => .number .w64
  | .capacity => .number .w64
  | .backpressure => .text
  | .pushTimeoutMs => .number .w64
  | .metricsEnabled => .flag
  | .metricsListenAddr => .text
  | .metricsPort => .number .w16

abbrev Value (f : Field) : Type := f.kind.Value

/-- The fields of a section, in order. -/
def ofSection (s : Section) : List Field :=
  all.filter (fun f => f.inSection == s)

theorem mem_all (f : Field) : f ∈ all := by
  cases f <;> decide

end Field

end LogIntake.Settings
