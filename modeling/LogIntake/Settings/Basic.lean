import LogIntake.Settings.Field

/-!
# Settings

The settings of the daemon as they are written: texts, numbers and flags, section by section. They are put
together from layers. A layer gives values to some of the fields, and laying it over settings leaves the
other fields as they are.
-/

namespace LogIntake

namespace Settings

structure General where
  /-- The least severe log lines that are written. -/
  logLevel : String := "info"
  logFormat : String := "json"
  deriving DecidableEq, Repr

/-- Where connections are accepted, and how they are read. -/
structure Ingest where
  bindAddress : String := "0.0.0.0"
  /-- The port to listen on; 0 leaves the choice to the host. -/
  port : UInt16 := 5140
  backlog : UInt32 := 99
  maxConnections : UInt64 := 256
  readTimeoutSecs : UInt64 := 300
  maxRecordSize : UInt64 := 1048576
  recvBufferSize : UInt64 := 65536
  framing : String := "tagged"
  decodeErrorPolicy : String := "terminate"
  acceptBackoffMs : UInt64 := 50
  shutdownGraceSecs : UInt64 := 5
  deriving DecidableEq, Repr

/-- The queue that all connections share. -/
structure Queue where
  capacity : UInt64 := 10000
  backpressure : String := "wait"
  pushTimeoutMs : UInt64 := 5000
  deriving DecidableEq, Repr

/-- Where metrics are served, if they are. -/
structure Metrics where
  enabled : Bool := false
  listenAddr : String := "127.0.0.1"
  port : UInt16 := 9100
  deriving DecidableEq, Repr

end Settings

structure Settings where
  general : Settings.General := {}
  ingest : Settings.Ingest := {}
  queue : Settings.Queue := {}
  metrics : Settings.Metrics := {}
  deriving DecidableEq, Repr

namespace Settings

/-- The value of a field. -/
def get (s : Settings) : (f : Field) → f.Value
  | .logLevel => s.general.logLevel
  | .logFormat => s.general.logFormat
  | .bindAddress => s.ingest.bindAddress
  | .port => s.ingest.port
  | .backlog => s.ingest.backlog
  | .maxConnections => s.ingest.maxConnections
  | .readTimeoutSecs => s.ingest.readTimeoutSecs
  | .maxRecordSize => s.ingest.maxRecordSize
  | .recvBufferSize => s.ingest.recvBufferSize
  | .framing => s.ingest.framing
  | .decodeErrorPolicy => s.ingest.decodeErrorPolicy
  | .acceptBackoffMs => s.ingest.acceptBackoffMs
  | .shutdownGraceSecs => s.ingest.shutdownGraceSecs
  | .capacity => s.queue.capacity
  | .backpressure => s.queue.backpressure
  | .pushTimeoutMs => s.queue.pushTimeoutMs
  | .metricsEnabled => s.metrics.enabled
  | .metricsListenAddr => s.metrics.listenAddr
  | .metricsPort => s.metrics.port

/-- The settings with another value of one field. -/
def set (s : Settings) : (f : Field) → f.Value → Settings
  | .logLevel, v => { s with general.logLevel := v }
  | .logFormat, v => { s with general.logFormat := v }
  | .bindAddress, v => { s with ingest.bindAddress := v }
  | .port, v => { s with ingest.port := v }
  | .backlog, v => { s with ingest.backlog := v }
  | .maxConnections, v => { s with ingest.maxConnections := v }
  | .readTimeoutSecs, v => { s with ingest.readTimeoutSecs := v }
  | .maxRecordSize, v => { s with ingest.maxRecordSize := v }
  | .recvBufferSize, v => { s with ingest.recvBufferSize := v }
  | .framing, v => { s with ingest.framing := v }
  | .decodeErrorPolicy, v => { s with ingest.decodeErrorPolicy := v }
  | .acceptBackoffMs, v => { s with ingest.acceptBackoffMs := v }
  | .shutdownGraceSecs, v => { s with ingest.shutdownGraceSecs := v }
  | .capacity, v => { s with queue.capacity := v }
  | .backpressure, v => { s with queue.backpressure := v }
  | .pushTimeoutMs, v => { s with queue.pushTimeoutMs := v }
  | .metricsEnabled, v => { s with metrics.enabled := v }
  | .metricsListenAddr, v => { s with metrics.listenAddr := v }
  | .metricsPort, v => { s with metrics.port := v }

theorem get_set_self (s : Settings) (f : Field) (v : f.Value) : (s.set f v).get f = v := by
  cases f <;> rfl

theorem get_set_of_ne (s : Settings) {f g : Field} (v : f.Value) (h : f ≠ g) : (s.set f v).get g = s.get g := by
  cases f <;> cases g <;> first | rfl | exact absurd rfl h

/-! ## Layers -/

/-- Values for some of the fields. -/
def Layer : Type := (f : Field) → Option f.Value

/-- The settings with the value that a layer has for one field, if it has one. -/
def overlayField (layer : Layer) (s : Settings) (f : Field) : Settings :=
  match layer f with
  | some v => s.set f v
  | none => s

/-- Lays the values of a layer over settings. -/
def overlay (s : Settings) (layer : Layer) : Settings :=
  Field.all.foldl (overlayField layer) s

end Settings

end LogIntake
