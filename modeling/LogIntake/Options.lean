import LogIntake.Duration
import LogIntake.Error
import LogIntake.Framing.Basic
import LogIntake.Settings.Basic
import LogIntake.Text.Blank

/-!
# Options

The options with which connections are read, accepted and queued: settings whose texts have been understood
and whose numbers have become durations. Options can also be put together one by one.
-/

namespace LogIntake

/-- What happens after a malformed unit. -/
inductive DecodeErrorPolicy where
  /-- The unit is dropped, and reading goes on. -/
  | drop
  /-- The connection ends. -/
  | terminate
  deriving DecidableEq, Repr

namespace DecodeErrorPolicy

def all : List DecodeErrorPolicy := [.drop, .terminate]

def name : DecodeErrorPolicy → String
  | .drop => "drop"
  | .terminate => "terminate"

def ofName? (name : String) : Option DecodeErrorPolicy :=
  all.find? (·.name == name)

end DecodeErrorPolicy

/-- What a push does when the queue is full. -/
inductive Backpressure where
  /-- It waits for a place. -/
  | wait
  /-- It fails at once. -/
  | reject
  deriving DecidableEq, Repr

namespace Backpressure

def all : List Backpressure := [.wait, .reject]

def name : Backpressure → String
  | .wait => "wait"
  | .reject => "reject"

def ofName? (name : String) : Option Backpressure :=
  all.find? (·.name == name)

end Backpressure

/-! ## Reading names -/

def Framing.parse (name : String) : Except IntakeError Framing :=
  match Framing.ofName? name with
  | some framing => .ok framing
  | none => .error (.setting "framing" s!"unknown framing '{name}'")

def DecodeErrorPolicy.parse (name : String) : Except IntakeError DecodeErrorPolicy :=
  match DecodeErrorPolicy.ofName? name with
  | some policy => .ok policy
  | none => .error (.setting "decode_error_policy" s!"unknown policy '{name}'")

def Backpressure.parse (name : String) : Except IntakeError Backpressure :=
  match Backpressure.ofName? name with
  | some mode => .ok mode
  | none => .error (.setting "backpressure" s!"unknown backpressure mode '{name}'")

/-! ## Options -/

/-- How a connection is read. -/
structure WorkerOptions where
  framing : Framing := .tagged
  maxRecordSize : Nat := 1048576
  /-- The size of the receive buffer to begin with, in bytes. -/
  recvBufferSize : Nat := 65536
  /-- How long the next frame may take. -/
  readTimeout : Duration := .ofSecs 300
  policy : DecodeErrorPolicy := .terminate
  deriving DecidableEq, Repr

/-- How connections are accepted. -/
structure ListenerOptions where
  bindAddress : String := "0.0.0.0"
  port : UInt16 := 5140
  backlog : UInt32 := 99
  /-- How many connections are served at a time. -/
  maxConnections : Nat := 256
  /-- How long to wait after a failed accept. -/
  acceptBackoff : Duration := .ofMillis 50
  /-- How long to wait for workers at the end. -/
  shutdownGrace : Duration := .ofSecs 5
  worker : WorkerOptions := {}
  deriving DecidableEq, Repr

/-- How records are queued. -/
structure QueueOptions where
  capacity : Nat := 10000
  backpressure : Backpressure := .wait
  /-- How long a push may wait. -/
  pushTimeout : Duration := .ofSecs 5
  deriving DecidableEq, Repr

/-- The largest number of permits that a semaphore can have. -/
def maxPermits : Nat := 2305843009213693951

/-- Passes a check, or says what is wrong with a field. -/
def require (met : Bool) (field reason : String) : Except IntakeError Unit :=
  if met then .ok () else .error (.setting field reason)

def WorkerOptions.validate (o : WorkerOptions) : Except IntakeError Unit := do
  require (0 < o.maxRecordSize) "max_record_size" "must be greater than 0"
  require (0 < o.recvBufferSize) "recv_buffer_size" "must be greater than 0"
  require (!o.readTimeout.isZero) "read_timeout" "must be greater than 0"

def ListenerOptions.validate (o : ListenerOptions) : Except IntakeError Unit := do
  require (!Text.allBlank o.bindAddress) "bind_address" "must not be empty"
  require (0 < o.backlog.toNat) "backlog" "must be greater than 0"
  require (0 < o.maxConnections && o.maxConnections ≤ maxPermits) "max_connections" s!"must be 1-{maxPermits}"
  o.worker.validate

def QueueOptions.validate (o : QueueOptions) : Except IntakeError Unit := do
  require (0 < o.capacity) "capacity" "must be greater than 0"
  require (!o.pushTimeout.isZero) "push_timeout" "must be greater than 0"

/-! ## Options from settings -/

def ListenerOptions.ofSettings (s : Settings.Ingest) : Except IntakeError ListenerOptions := do
  let framing ← Framing.parse s.framing
  let policy ← DecodeErrorPolicy.parse s.decodeErrorPolicy
  let options : ListenerOptions :=
    { bindAddress := s.bindAddress
      port := s.port
      backlog := s.backlog
      maxConnections := s.maxConnections.toNat
      acceptBackoff := .ofMillis s.acceptBackoffMs.toNat
      shutdownGrace := .ofSecs s.shutdownGraceSecs.toNat
      worker :=
        { framing
          maxRecordSize := s.maxRecordSize.toNat
          recvBufferSize := s.recvBufferSize.toNat
          readTimeout := .ofSecs s.readTimeoutSecs.toNat
          policy } }
  options.validate
  return options

def QueueOptions.ofSettings (s : Settings.Queue) : Except IntakeError QueueOptions := do
  let backpressure ← Backpressure.parse s.backpressure
  let options : QueueOptions :=
    { capacity := s.capacity.toNat, backpressure, pushTimeout := .ofMillis s.pushTimeoutMs.toNat }
  options.validate
  return options

/-- The options of a service: how it accepts connections, and how it queues their records. -/
structure ServiceOptions where
  listener : ListenerOptions := {}
  queue : QueueOptions := {}
  deriving DecidableEq, Repr

def ServiceOptions.ofSettings (s : Settings) : Except IntakeError ServiceOptions := do
  let listener ← ListenerOptions.ofSettings s.ingest
  let queue ← QueueOptions.ofSettings s.queue
  return { listener, queue }

/-! ## Options one by one -/

/-- A change of one option of a listener. -/
inductive ListenerOptions.Change where
  | bindAddress (address : String)
  | port (port : UInt16)
  | backlog (length : UInt32)
  | maxConnections (count : Nat)
  | acceptBackoff (wait : Duration)
  | shutdownGrace (wait : Duration)
  | framing (framing : Framing)
  | maxRecordSize (size : Nat)
  | readTimeout (wait : Duration)
  | policy (policy : DecodeErrorPolicy)
  deriving DecidableEq, Repr

namespace ListenerOptions

def change (o : ListenerOptions) : Change → ListenerOptions
  | .bindAddress v => { o with bindAddress := v }
  | .port v => { o with port := v }
  | .backlog v => { o with backlog := v }
  | .maxConnections v => { o with maxConnections := v }
  | .acceptBackoff v => { o with acceptBackoff := v }
  | .shutdownGrace v => { o with shutdownGrace := v }
  | .framing v => { o with worker.framing := v }
  | .maxRecordSize v => { o with worker.maxRecordSize := v }
  | .readTimeout v => { o with worker.readTimeout := v }
  | .policy v => { o with worker.policy := v }

/-- The options after changes of the default, if they are valid. -/
def build (changes : List Change) : Except IntakeError ListenerOptions := do
  let options := changes.foldl change {}
  options.validate
  return options

end ListenerOptions

end LogIntake
