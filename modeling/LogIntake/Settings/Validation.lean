import LogIntake.Error
import LogIntake.Settings.Basic
import LogIntake.Text.Blank

/-!
# Valid settings

Settings are valid when they meet a list of demands. The first demand that is not met is the error.
-/

namespace LogIntake.Settings

def logLevels : List String := ["trace", "debug", "info", "warn", "error"]

def logFormats : List String := ["json", "pretty"]

def framings : List String := ["tagged", "newline", "octet-counting"]

def decodeErrorPolicies : List String := ["drop", "terminate"]

def backpressures : List String := ["wait", "reject"]

/-- The largest limit for the size of a record. -/
def maxRecordSizeLimit : Nat := 16777216

/-- The largest capacity of the queue. -/
def maxQueueCapacity : Nat := 10000000

/-- A demand on a field, and whether it is met. -/
structure Demand where
  field : Field
  met : Bool
  text : String

def Demand.oneOf (field : Field) (value : String) (allowed : List String) : Demand :=
  ⟨field, allowed.contains value, "must be one of: " ++ ", ".intercalate allowed⟩

def Demand.positive (field : Field) (value : Nat) : Demand :=
  ⟨field, 0 < value, "must be greater than 0"⟩

def Demand.upTo (field : Field) (value limit : Nat) : Demand :=
  ⟨field, 0 < value && value ≤ limit, s!"must be 1-{limit}"⟩

/-- The demands in the order in which they are checked. -/
def demands (s : Settings) : List Demand :=
  [ .oneOf .logLevel s.general.logLevel logLevels,
    .oneOf .logFormat s.general.logFormat logFormats,
    ⟨.bindAddress, !Text.allBlank s.ingest.bindAddress, "must not be empty"⟩,
    .positive .backlog s.ingest.backlog.toNat,
    .positive .maxConnections s.ingest.maxConnections.toNat,
    .positive .readTimeoutSecs s.ingest.readTimeoutSecs.toNat,
    .upTo .maxRecordSize s.ingest.maxRecordSize.toNat maxRecordSizeLimit,
    .positive .recvBufferSize s.ingest.recvBufferSize.toNat,
    .oneOf .framing s.ingest.framing framings,
    .oneOf .decodeErrorPolicy s.ingest.decodeErrorPolicy decodeErrorPolicies,
    .upTo .capacity s.queue.capacity.toNat maxQueueCapacity,
    .oneOf .backpressure s.queue.backpressure backpressures,
    .positive .pushTimeoutMs s.queue.pushTimeoutMs.toNat,
    ⟨.metricsPort, !(s.metrics.enabled && s.metrics.port == 0), "must be non-zero when metrics are enabled"⟩ ]

/-- The first demand that is not met. -/
def validate (s : Settings) : Except ConfigError Unit :=
  match s.demands.find? (fun d => !d.met) with
  | some d => .error (.invalidValue d.field.path d.text)
  | none => .ok ()

end LogIntake.Settings
