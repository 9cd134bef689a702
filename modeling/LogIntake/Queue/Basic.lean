import LogIntake.Duration
import LogIntake.Error
import LogIntake.Metrics
import LogIntake.Options
import LogIntake.Record

/-!
# The shared queue

A bounded queue of records with many producers and one consumer. A push into a full queue fails or waits,
as the queue is made. Pushes that wait are served first come, first served: a place that becomes free is
granted to the oldest of them at once, and the record takes the place when its producer goes on. A push that
waits has a ticket, with which its producer asks for the result: the record has been taken in, its time is
up, or the queue has been closed.

A closed queue takes in nothing more, but what it holds can still be taken out. A push to which a place had been
granted before fails like all others, but it has the place until its producer learns of it. As long as there is such
a place, a consumer that finds nothing is left to wait.
-/

namespace LogIntake

/-- How a push ends. -/
inductive PushResult where
  /-- The record has been taken in. -/
  | taken
  | failed (error : PushError)
  deriving DecidableEq, Repr

/-- A push that waits for a place. -/
structure Waiter where
  ticket : Nat
  record : Record
  deadline : Instant
  deriving DecidableEq, Repr

structure Queue where
  capacity : Nat
  backpressure : Backpressure
  pushTimeout : Duration
  /-- The records held, the oldest first. -/
  buffered : List Record := []
  /-- The pushes that wait, the oldest first. -/
  waiting : List Waiter := []
  /-- The pushes to which a place has been granted and whose records are still to take it. -/
  granted : List Waiter := []
  /-- The errors of pushes that have waited in vain, until their producers ask for them. -/
  failed : List (Nat × PushError) := []
  /-- The pushes that have failed with a place granted to them, which they have still to give back, by ticket. -/
  outstanding : List Nat := []
  nextTicket : Nat := 0
  closed : Bool := false
  /-- How many producers there are. -/
  producers : Nat := 1
  metrics : Metrics := {}
  deriving DecidableEq, Repr

/-- What becomes of a push at once. -/
inductive Push where
  | done (result : PushResult)
  | waits (ticket : Nat)
  deriving DecidableEq, Repr

/-- What a consumer that may wait gets at once. -/
inductive Poll (α : Type) where
  | ready (value : α)
  | pending
  deriving DecidableEq, Repr

namespace Queue

/-- An empty queue with one producer; it has at least one place. -/
def start (o : QueueOptions) : Queue :=
  { capacity := max 1 o.capacity, backpressure := o.backpressure, pushTimeout := o.pushTimeout }

/-- How many records the queue holds. -/
def length (q : Queue) : Nat := q.buffered.length

/-- How many places are taken, granted or still to be given back. -/
def occupied (q : Queue) : Nat := q.buffered.length + q.granted.length + q.outstanding.length

def isFull (q : Queue) : Bool := q.capacity ≤ q.occupied

/-- A number of places as it counts for the utilization: in 32 bits. -/
def measured (n : Nat) : Nat := min n 4294967295

/-- How much of the queue is in use, from 0 to 1. -/
def utilization (q : Queue) : Float :=
  Float.ofNat (measured q.occupied) / Float.ofNat (measured q.capacity)

/-- Sets the gauge of the queue's depth. -/
def gauge (q : Queue) (depth : Nat) : Queue :=
  { q with metrics := q.metrics.set .queueDepth depth }

/-- Counts the result of a push. -/
def tally (q : Queue) : PushResult → Queue
  | .taken => { q with metrics := q.metrics.add .pushed 1 }
  | .failed e => { q with metrics := q.metrics.add (.pushFailures e.failure) 1 }

/-- Reports a result to a producer. -/
def report (q : Queue) (result : PushResult) : Queue :=
  (q.tally result).gauge q.occupied

/-- Takes a record in. -/
def take (q : Queue) (r : Record) : Queue :=
  { q with buffered := q.buffered ++ [r] }

/-! ## Producers -/

/-- A push that ends at once. -/
def finish (q : Queue) (result : PushResult) : Queue × Push :=
  (q.report result, .done result)

/-- Begins a push. -/
def push (q : Queue) (now : Instant) (r : Record) : Queue × Push :=
  if q.closed then q.finish (.failed .closed)
  else if !q.isFull then (q.take r).finish .taken
  else
    match q.backpressure with
    | .reject => q.finish (.failed (.full q.capacity))
    | .wait =>
      if q.pushTimeout.isZero then q.finish (.failed (.timedOut q.pushTimeout))
      else
        ({ q with
            waiting := q.waiting ++ [⟨q.nextTicket, r, now.plus q.pushTimeout⟩]
            nextTicket := q.nextTicket + 1 },
          .waits q.nextTicket)

/-- Goes on with a push that has waited: its record takes the place granted to it, or the producer gets its
error and the push gives back the place that it may have. The answer is `none` while the push still waits. -/
def resume (q : Queue) (ticket : Nat) : Queue × Option PushResult :=
  match q.granted.find? (·.ticket == ticket) with
  | some w =>
    let served := { q with granted := q.granted.filter (·.ticket != ticket) }.take w.record
    (served.report .taken, some .taken)
  | none =>
    match q.failed.lookup ticket with
    | some e =>
      let left := { q with
        failed := q.failed.filter (·.1 != ticket)
        outstanding := q.outstanding.filter (· != ticket) }
      (left.report (.failed e), some (.failed e))
    | none => (q, none)

/-- Grants free places to the oldest pushes that wait. -/
def grant (q : Queue) : Queue :=
  let free := q.capacity - q.occupied
  { q with granted := q.granted ++ q.waiting.take free, waiting := q.waiting.drop free }

/-- Gives up the pushes whose time is up. -/
def expire (q : Queue) (now : Instant) : Queue :=
  let due := fun w : Waiter => decide (w.deadline.nanos ≤ now.nanos)
  { q with
    waiting := q.waiting.filter (!due ·)
    failed := q.failed ++ (q.waiting.filter due).map (fun w => (w.ticket, .timedOut q.pushTimeout)) }

/-- When the time of the next push is up. -/
def nextDeadline (q : Queue) : Option Instant :=
  (q.waiting.map (·.deadline.nanos)).min?.map Duration.mk

/-- The tickets of pushes that can go on, in the order in which they could. -/
def resumable (q : Queue) : List Nat :=
  q.granted.map (·.ticket) ++ q.failed.map (·.1)

def addProducer (q : Queue) : Queue :=
  { q with producers := q.producers + 1 }

def dropProducer (q : Queue) : Queue :=
  { q with producers := q.producers - 1 }

/-! ## The consumer -/

/-- Counts records that have been taken out, and gives their places away. -/
def popped (q : Queue) (n : Nat) : Queue :=
  if n = 0 then q else (gauge { q with metrics := q.metrics.add .popped n } q.length).grant

/-- Takes out up to `n` of the records that the queue holds now. -/
def drain (q : Queue) (n : Nat) : Queue × List Record :=
  let batch := q.buffered.take n
  (popped { q with buffered := q.buffered.drop n } batch.length, batch)

/-- Takes out one record without waiting. -/
def tryRecv (q : Queue) : Queue × Option Record :=
  let (rest, batch) := q.drain 1
  (rest, batch.head?)

/-- Whether no record will come any more: the queue is closed and no place is still to be given back, or there is
no producer left. -/
def isFinished (q : Queue) : Bool :=
  q.closed && q.outstanding.isEmpty || q.producers == 0

/-- Takes out one record, or finds that none will come, or has to wait. -/
def recv (q : Queue) : Queue × Poll (Option Record) :=
  if q.buffered.isEmpty then (q, if q.isFinished then .ready none else .pending)
  else
    let (rest, r) := q.tryRecv
    (rest, .ready r)

/-- Takes out from one to `n` records, or finds that none will come, or has to wait. -/
def recvBatch (q : Queue) (n : Nat) : Queue × Poll (List Record) :=
  if n == 0 then (q, .ready [])
  else if q.buffered.isEmpty then (q, if q.isFinished then .ready [] else .pending)
  else
    let (rest, batch) := q.drain n
    (rest, .ready batch)

/-- Closes the queue: pushes that have not ended fail, and so do all later ones. A place that has been granted is
not free before its push has been told. -/
def close (q : Queue) : Queue :=
  { q with
    closed := true
    granted := []
    outstanding := q.outstanding ++ q.granted.map (·.ticket)
    waiting := []
    failed := q.failed ++ (q.granted ++ q.waiting).map (fun w => (w.ticket, .closed)) }

/-- Closes the queue and throws away what it holds. -/
def abandon (q : Queue) : Queue :=
  close { q with buffered := [] }

end Queue

end LogIntake
