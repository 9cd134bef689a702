import LogIntake.Connection.Reader
import LogIntake.Connection.Summary
import LogIntake.Log
import LogIntake.Options
import LogIntake.Queue.Basic

/-!
# Workers

A worker serves one connection: it takes frame after frame and pushes the records into the shared queue,
numbered in order. It looks for the signal to shut down before each frame, but a push that has begun runs to
its end. Each frame has to come in time: how many bytes come meanwhile does not matter.

A worker goes in small steps. A step tells what became of the queue, what there was to observe, and whether
the worker goes on, has to wait, or has ended. A worker has an allowance for each of its turns: the end of a
pause costs one unit, and so does a push into a queue that lets producers wait. When it is used up, the
worker gives way to others and goes on in its next turn.
-/

namespace LogIntake

namespace Worker

/-- Where a worker stands. -/
inductive Phase where
  | starting
  /-- About to take the next frame. -/
  | ready
  /-- Waiting for the next frame, at most until the deadline. -/
  | waiting (deadline : Instant)
  /-- About to push a record. -/
  | holding (payload : Bytes)
  /-- Waiting with a ticket for a place in the queue. -/
  | pushing (ticket : Nat)
  deriving DecidableEq, Repr

/-- What others can observe of a worker. -/
inductive Event where
  | started
  /-- A record is in the queue. -/
  | delivered
  | malformed (unit : Malformed)
  /-- A malformed unit was dropped, and the connection goes on. -/
  | dropped
  /-- The signal to shut down came out of the connection. -/
  | signalled
  deriving DecidableEq, Repr

end Worker

structure Worker where
  connection : Nat
  peer : SocketAddress
  options : WorkerOptions
  reader : Reader
  phase : Worker.Phase := .starting
  /-- How many records are in the queue; the next record has this number. -/
  records : Nat := 0
  malformed : Nat := 0
  deriving DecidableEq, Repr

namespace Worker

/-- A worker for a new connection. -/
def start (connection : Nat) (peer : SocketAddress) (options : WorkerOptions) (steps : List Source.Step) : Worker :=
  { connection, peer, options
    reader :=
      { source := { steps }
        decoder := .start options.framing options.maxRecordSize
        storage := .start options.recvBufferSize } }

/-- What a worker does after a step. -/
inductive Next where
  | goesOn (worker : Worker)
  | blocked (worker : Worker)
  /-- It could go on, but its allowance is used up. -/
  | spent (worker : Worker)
  | ended (closing : Closing)
  deriving DecidableEq, Repr

structure Turn where
  queue : Queue
  next : Next
  events : List Event := []
  /-- The allowance that is left. -/
  allowance : Nat
  deriving DecidableEq, Repr

/-- The end of a worker. -/
def close (w : Worker) (reason : CloseReason) (error : Option IntakeError) : Next :=
  .ended
    { summary :=
        { connection := w.connection, peer := w.peer, records := w.records, malformed := w.malformed
          discarded := w.reader.decoder.discarded, reason }
      error }

/-- Goes on after a push has ended. -/
def afterPush (w : Worker) (queue : Queue) (events : List Event) (allowance : Nat) : PushResult → Turn
  | .taken =>
    ⟨queue, .goesOn { w with phase := .ready, records := w.records + 1 }, events ++ [.delivered], allowance⟩
  | .failed e => ⟨queue, w.close .queue (some (.queue e)), events, allowance⟩

/-- Pushes a record. -/
def handleRecord (w : Worker) (now : Instant) (queue : Queue) (events : List Event) (allowance : Nat)
    (payload : Bytes) : Turn :=
  if queue.backpressure = .wait ∧ allowance = 0 then
    ⟨queue, .spent { w with phase := .holding payload }, events, 0⟩
  else
    match queue.push now ⟨payload, w.peer, w.connection, w.records⟩ with
    | (q, .done result) =>
      w.afterPush q events (if queue.backpressure = .wait then allowance - 1 else allowance) result
    | (q, .waits ticket) => ⟨q, .blocked { w with phase := .pushing ticket }, events, allowance⟩

/-- Reports a malformed unit and goes on or ends. -/
def handleMalformed (w : Worker) (queue : Queue) (events : List Event) (allowance : Nat) (unit : Malformed) : Turn :=
  let w := { w with phase := .ready, malformed := w.malformed + 1 }
  match w.options.policy with
  | .drop => ⟨queue, .goesOn w, events ++ [.malformed unit, .dropped], allowance⟩
  | .terminate => ⟨queue, w.close .decode (some (.decode w.peer unit)), events ++ [.malformed unit], allowance⟩

/-- The number of the newest record of a worker that the queue still holds. -/
def newest? (w : Worker) (queue : Queue) : Option Nat :=
  ((queue.buffered.filter (·.connection == w.connection)).getLast?).map (·.sequence)

/-- Waits for a frame until the deadline; `next` says how. -/
def await (w : Worker) (now deadline : Instant) (queue : Queue) (events : List Event) (allowance : Nat)
    (next : Worker → Next) : Turn :=
  if deadline.nanos ≤ now.nanos then
    ⟨queue, w.close .timeout (some (.readTimeout w.peer w.options.readTimeout)), events, allowance⟩
  else ⟨queue, next { w with phase := .waiting deadline }, events, allowance⟩

/-- Takes the next frame, if it comes before the deadline. -/
def takeFrame (w : Worker) (now deadline : Instant) (queue : Queue) (allowance : Nat) : Turn :=
  let result := w.reader.next now (w.newest? queue) allowance
  let w := { w with reader := result.reader }
  let events := if result.signalled then [Event.signalled] else []
  let allowance := result.allowance
  match result.arrival with
  | .frame (.record payload) => w.handleRecord now queue events allowance payload
  | .frame (.malformed unit) => w.handleMalformed queue events allowance unit
  | .ended => ⟨queue, w.close .eof none, events, allowance⟩
  | .failed (.io cause) => ⟨queue, w.close .io (some (.connection w.peer cause)), events, allowance⟩
  | .failed (.desync reason) => ⟨queue, w.close .framing (some (.framing w.peer reason)), events, allowance⟩
  | .blocked => w.await now deadline queue events allowance .blocked
  | .spent => w.await now deadline queue events allowance .spent

/-- Takes a frame, unless there is a reason not to begin with that. -/
def begin (w : Worker) (now deadline : Instant) (stopping : Bool) (queue : Queue) (allowance : Nat) : Turn :=
  if allowance = 0 then ⟨queue, .spent w, [], 0⟩
  else if stopping then ⟨queue, w.close .shutdown none, [], allowance⟩
  else w.takeFrame now deadline queue allowance

/-- Takes a step; `stopping` tells that the signal to shut down has been given. -/
def step (w : Worker) (now : Instant) (stopping : Bool) (queue : Queue) (allowance : Nat) : Turn :=
  match w.phase with
  | .starting => ⟨queue, .goesOn { w with phase := .ready }, [.started], allowance⟩
  | .ready => w.begin now (now.plus w.options.readTimeout) stopping queue allowance
  | .waiting deadline => w.begin now deadline stopping queue allowance
  | .holding payload => w.handleRecord now queue [] allowance payload
  | .pushing ticket =>
    match queue.resume ticket with
    | (q, some result) => w.afterPush q [] (allowance - 1) result
    | (_, none) => ⟨queue, .blocked w, [], allowance⟩

/-- The next time at which a worker that waits can go on by itself. -/
def nextTime (w : Worker) : Option Instant :=
  match w.phase with
  | .waiting deadline =>
    match w.reader.source.pausedUntil with
    | some stop => some (if stop.nanos ≤ deadline.nanos then stop else deadline)
    | none => some deadline
  | _ => none

/-- The ticket with which a worker waits for a place in the queue. -/
def ticket? (w : Worker) : Option Nat :=
  match w.phase with
  | .pushing ticket => some ticket
  | _ => none

/-! ## Log lines -/

/-- The log line of an event, if it has one. -/
def Event.log? : Event → Option LogLine
  | .started => some ⟨.debug, "connection worker started"⟩
  | .dropped => some ⟨.debug, "dropped malformed unit"⟩
  | _ => none

end Worker

/-- The log line of the end of a connection. -/
def Closing.log (c : Closing) : LogLine :=
  match c.error with
  | none => ⟨.info, "connection closed"⟩
  | some _ => ⟨.warn, "connection terminated"⟩

end LogIntake
