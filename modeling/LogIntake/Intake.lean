import LogIntake.Connection.Worker

/-!
# The intake

All that the workers of one listener share: the clock, the signal to shut down, the queue, and a ledger of
what there was to observe. A worker that has ended is no longer among the workers.
-/

namespace LogIntake

/-- What has been observed of workers. -/
structure Ledger where
  metrics : Metrics := {}
  /-- The malformed units, with the peers they came from. -/
  decodeErrors : List (SocketAddress × Malformed) := []
  /-- The connections that have ended, in the order in which they did. -/
  closings : List Closing := []
  log : List LogLine := []
  deriving DecidableEq, Repr

namespace Ledger

def write (l : Ledger) (line : LogLine) : Ledger :=
  { l with log := l.log ++ [line] }

/-- Counts and writes down an event of a worker. -/
def observe (l : Ledger) (w : Worker) (e : Worker.Event) : Ledger :=
  let l := match e with
    | .delivered => { l with metrics := l.metrics.add (.decoded w.options.framing) 1 }
    | .malformed unit =>
      { l with
        metrics := l.metrics.add (.decodeErrors w.options.framing) 1
        decodeErrors := l.decodeErrors ++ [(w.peer, unit)] }
    | _ => l
  match e.log? with
  | some line => l.write line
  | none => l

/-- Counts and writes down the end of a connection. -/
def close (l : Ledger) (c : Closing) : Ledger :=
  { l.write c.log with
    metrics := l.metrics.add (.closed c.summary.reason) 1
    closings := l.closings ++ [c] }

/-- The peers from which malformed units came, in the order of their first, with the units of each. -/
def decodeErrorsByPeer (l : Ledger) : List (SocketAddress × List Malformed) :=
  ((l.decodeErrors.map (·.1)).eraseDups).map fun peer =>
    (peer, (l.decodeErrors.filter (·.1 == peer)).map (·.2))

end Ledger

structure Intake where
  now : Instant := ⟨0⟩
  /-- Whether the workers have been told to shut down. -/
  stopping : Bool := false
  queue : Queue
  /-- The workers that have not ended. -/
  workers : List Worker := []
  ledger : Ledger := {}
  deriving DecidableEq, Repr

namespace Intake

/-- What a task does after a step. -/
inductive Status where
  /-- It goes on, with the allowance that is left. -/
  | goesOn (allowance : Nat)
  | blocked
  /-- It could go on, but its allowance is used up. -/
  | spent
  | ended
  deriving DecidableEq, Repr

def worker? (i : Intake) (connection : Nat) : Option Worker :=
  i.workers.find? (·.connection == connection)

/-- Puts a worker in the place of the one that serves the same connection. -/
def replace (i : Intake) (w : Worker) : Intake :=
  { i with workers := i.workers.map fun v => if v.connection = w.connection then w else v }

/-- Adds a worker with a producer of its own. -/
def addWorker (i : Intake) (w : Worker) : Intake :=
  { i with workers := i.workers ++ [w], queue := i.queue.addProducer }

/-- Lets a worker take a step; the last answer tells whether the signal to shut down came out of it. -/
def stepWorker (i : Intake) (w : Worker) (allowance : Nat) : Intake × Status × Bool :=
  let turn := w.step i.now i.stopping i.queue allowance
  let ledger := turn.events.foldl (fun l e => l.observe w e) i.ledger
  let signalled := turn.events.contains .signalled
  let i := { i with queue := turn.queue, ledger }
  match turn.next with
  | .goesOn v => (i.replace v, .goesOn turn.allowance, signalled)
  | .blocked v => (i.replace v, .blocked, signalled)
  | .spent v => (i.replace v, .spent, signalled)
  | .ended closing =>
    ({ i with
        workers := i.workers.filter (·.connection != w.connection)
        queue := i.queue.dropProducer
        ledger := i.ledger.close closing },
      .ended, signalled)

/-- Tells the workers to shut down. -/
def stop (i : Intake) : Intake :=
  { i with stopping := true }

/-- Lets the clock run on to a point of time. -/
def elapse (i : Intake) (t : Instant) : Intake :=
  { i with now := t, queue := i.queue.expire t }

/-- Pushes a record while nobody else is at work: if it has to wait, it waits in vain. -/
def push (i : Intake) (r : Record) : Intake × PushResult :=
  match i.queue.push i.now r with
  | (q, .done result) => ({ i with queue := q }, result)
  | (q, .waits ticket) =>
    let late := { i with queue := q }.elapse (i.now.plus q.pushTimeout)
    let (q, result) := late.queue.resume ticket
    ({ late with queue := q }, result.getD (.failed (.timedOut q.pushTimeout)))

/-- The connections of workers whose pushes can go on, in the order in which they could. -/
def resumable (i : Intake) : List Nat :=
  i.queue.resumable.filterMap fun ticket =>
    (i.workers.find? (·.ticket? == some ticket)).map (·.connection)

/-- The counters and gauges of the workers and the queue. -/
def metrics (i : Intake) : Metrics :=
  i.ledger.metrics.join i.queue.metrics

end Intake

end LogIntake
