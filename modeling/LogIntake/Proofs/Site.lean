import LogIntake.Listener
import LogIntake.Proofs.Connection.Worker

/-!
# Sites

A site is a listener with its workers and the queue they share, and the consumer of that queue. Its moves
come in any order: the listener or a worker takes a step, the consumer takes records out, closes the queue or
goes away, the signal to shut down is given, time passes. A site remembers what the consumer has been
handed and how far each conversation has got.
-/

namespace LogIntake

structure Site where
  listener : Listener
  intake : Intake
  /-- Whether the consumer is there. -/
  consumer : Bool := true
  /-- What the consumer has been handed. -/
  handed : List Record := []
  /-- What was thrown away when the consumer went away. -/
  abandoned : List Record := []
  conversations : List Conversation := []

namespace Site

inductive Move where
  | listener (allowance : Nat)
  | worker (connection allowance : Nat)
  | drain (n : Nat)
  | tryRecv
  | recv
  | recvBatch (n : Nat)
  | close
  | leave
  | stop
  | elapse (t : Instant)
  deriving DecidableEq, Repr

def start (o : ListenerOptions) (queue : QueueOptions) (localAddress : Option SocketAddress) (offers : List Offer) :
    Site :=
  { listener := .start o localAddress offers, intake := { queue := .start queue } }

/-- The conversation that a step of the listener has begun, if it has. -/
def begun (l next : Listener) : List Conversation :=
  if next.stats.accepted = l.stats.accepted then []
  else
    match l.offers with
    | ⟨_, .connection peer steps⟩ :: _ =>
      [{ connection := l.nextConnection, peer, sent := (Source.mk steps none).content }]
    | _ => []

def stepListener (s : Site) (allowance : Nat) : Site :=
  let (listener, intake, _) := s.listener.step s.intake allowance
  { s with listener, intake, conversations := s.conversations ++ begun s.listener listener }

/-- How far a conversation is after a step of a worker, if it is the one that the worker serves. -/
def advance (s : Site) (w : Worker) (allowance : Nat) (c : Conversation) : Conversation :=
  if c.connection = w.connection then
    { c with
      received := c.received ++ w.readIn s.intake.now s.intake.stopping s.intake.queue allowance
      pushed := c.pushed
        + (w.step s.intake.now s.intake.stopping s.intake.queue allowance).events.count .delivered }
  else c

def stop (s : Site) : Site :=
  { s with intake := s.intake.stop, listener.cancelled := true }

/-- The listener takes note of the end of a worker. -/
def release (s : Site) : Site :=
  let (listener, intake) := s.listener.release s.intake
  { s with listener, intake }

def stepWorker (s : Site) (w : Worker) (allowance : Nat) : Site :=
  let (intake, status, signalled) := s.intake.stepWorker w allowance
  let s := { s with intake, conversations := s.conversations.map (s.advance w allowance) }
  let s := if signalled then s.stop else s
  if status = .ended then s.release else s

/-- The consumer, if it is there, does something to the queue that hands it some records. -/
def consume (s : Site) (queue : Queue) (records : List Record) : Site :=
  if s.consumer then { s with intake.queue := queue, handed := s.handed ++ records } else s

section

variable (s : Site) (queue : Queue) (records : List Record)

/-- What the consumer does concerns the queue and what has been handed to it, if anything. -/
theorem exists_consume :
    ∃ held handed, s.consume queue records = { s with intake.queue := held, handed } := by
  unfold consume
  split
  · exact ⟨_, _, rfl⟩
  · exact ⟨_, _, rfl⟩

theorem listener_consume : (s.consume queue records).listener = s.listener := by
  obtain ⟨held, handed, hsame⟩ := s.exists_consume queue records
  rw [hsame]

theorem conversations_consume : (s.consume queue records).conversations = s.conversations := by
  obtain ⟨held, handed, hsame⟩ := s.exists_consume queue records
  rw [hsame]

theorem now_consume : (s.consume queue records).intake.now = s.intake.now := by
  obtain ⟨held, handed, hsame⟩ := s.exists_consume queue records
  rw [hsame]

theorem stopping_consume : (s.consume queue records).intake.stopping = s.intake.stopping := by
  obtain ⟨held, handed, hsame⟩ := s.exists_consume queue records
  rw [hsame]

theorem workers_consume : (s.consume queue records).intake.workers = s.intake.workers := by
  obtain ⟨held, handed, hsame⟩ := s.exists_consume queue records
  rw [hsame]

theorem ledger_consume : (s.consume queue records).intake.ledger = s.intake.ledger := by
  obtain ⟨held, handed, hsame⟩ := s.exists_consume queue records
  rw [hsame]

end

def step (s : Site) : Move → Site
  | .listener allowance => s.stepListener allowance
  | .worker connection allowance => (s.intake.worker? connection).elim s (s.stepWorker · allowance)
  | .drain n => s.consume (s.intake.queue.drain n).1 (s.intake.queue.drain n).2
  | .tryRecv => s.consume s.intake.queue.tryRecv.1 s.intake.queue.tryRecv.2.toList
  | .recv => s.consume s.intake.queue.recv.1 (Queue.polled Option.toList s.intake.queue.recv.2)
  | .recvBatch n => s.consume (s.intake.queue.recvBatch n).1 (Queue.polled id (s.intake.queue.recvBatch n).2)
  | .close => s.consume s.intake.queue.close []
  | .leave =>
    { s with
      intake.queue := s.intake.queue.abandon, consumer := false
      abandoned := s.abandoned ++ s.intake.queue.buffered }
  | .stop => s.stop
  | .elapse t => { s with intake := s.intake.elapse t }

def run (s : Site) (moves : List Move) : Site :=
  moves.foldl step s

/-- The records that have been in the queue, in the order in which they came in. -/
def records (s : Site) : List Record :=
  s.handed ++ s.abandoned ++ s.intake.queue.buffered

end Site

end LogIntake
