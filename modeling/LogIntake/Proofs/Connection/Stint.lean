import LogIntake.Proofs.Connection.Stream
import LogIntake.Proofs.Connection.Worker
import LogIntake.Proofs.Queue.Traffic

/-!
# Stints of workers

A stint is a worker at its connection, from its start to its end, with the queue that it shares with others.
It goes on in moves that come in any order: the worker has a turn, others do something to the queue, the
signal to shut down is given. The book of a stint says what has become of the frames that the worker has
taken.
-/

namespace LogIntake

def Frame.unit? : Frame → Option Malformed
  | .record _ => none
  | .malformed unit => some unit

def units (frames : List Frame) : List Malformed :=
  frames.filterMap Frame.unit?

theorem units_append (frames more : List Frame) : units (frames ++ more) = units frames ++ units more :=
  List.filterMap_append ..

def Arrival.frame? : Arrival → Option Frame
  | .frame f => some f
  | _ => none

/-! ## Assignments -/

/-- What a worker is there for. -/
structure Assignment where
  connection : Nat
  peer : SocketAddress
  options : WorkerOptions
  /-- What reading the connection gives. -/
  steps : List Source.Step
  deriving DecidableEq, Repr

namespace Assignment

def worker (a : Assignment) : Worker :=
  .start a.connection a.peer a.options a.steps

/-- What the peer sends before reading fails or the stream ends. -/
def stream (a : Assignment) : Bytes :=
  (Source.mk a.steps none).stream

def fault? (a : Assignment) : Option IoError :=
  (Source.mk a.steps none).fault?

def parse (a : Assignment) : Parse :=
  a.options.framing.meaning a.options.maxRecordSize a.stream

/-- All frames of the connection. -/
def frames (a : Assignment) : List Frame :=
  a.parse.until a.fault?

def record (a : Assignment) (sequence : Nat) (payload : Bytes) : Record :=
  ⟨payload, a.peer, a.connection, sequence⟩

/-- The records of the connection with these payloads. -/
def records (a : Assignment) (payloads : List Bytes) : List Record :=
  payloads.mapIdx a.record

theorem records_concat (a : Assignment) (ps : List Bytes) (payload : Bytes) :
    a.records (ps ++ [payload]) = a.records ps ++ [a.record ps.length payload] :=
  List.mapIdx_concat ..

theorem length_records (a : Assignment) (ps : List Bytes) : (a.records ps).length = ps.length :=
  List.length_mapIdx ..

theorem records_isPrefix (a : Assignment) {ps qs : List Bytes} (h : ps <+: qs) : a.records ps <+: a.records qs := by
  obtain ⟨rest, rfl⟩ := h
  rw [records, records, List.mapIdx_append]
  exact List.prefix_append ..

end Assignment

/-! ## Turns -/

namespace Worker

def Event.unit? : Event → Option Malformed
  | .malformed unit => some unit
  | _ => none

def Next.closing? : Next → Option Closing
  | .ended closing => some closing
  | _ => none

def Next.isGoing : Next → Bool
  | .goesOn _ => true
  | _ => false

/-- The push of a record, unless the worker gives way first. -/
def pushOf (w : Worker) (now : Instant) (q : Queue) (allowance : Nat) (payload : Bytes) : Option Queue.Operation :=
  if q.backpressure = .wait ∧ allowance = 0 then none
  else some (.push now ⟨payload, w.peer, w.connection, w.records⟩)

/-- What a step finds on the connection, if the worker looks there. -/
def look? (w : Worker) (now : Instant) (stopping : Bool) (q : Queue) (allowance : Nat) : Option Reader.Result :=
  match w.phase with
  | .ready | .waiting _ =>
    if allowance = 0 ∨ stopping = true then none else some (w.reader.next now (w.newest? q) allowance)
  | _ => none

/-- The frame that a step takes. -/
def frame? (w : Worker) (now : Instant) (stopping : Bool) (q : Queue) (allowance : Nat) : Option Frame :=
  (w.look? now stopping q allowance).bind (·.arrival.frame?)

/-- What a step does to the queue. -/
def operation (w : Worker) (now : Instant) (stopping : Bool) (q : Queue) (allowance : Nat) :
    Option Queue.Operation :=
  match w.phase with
  | .holding payload => w.pushOf now q allowance payload
  | .pushing ticket => some (.resume ticket)
  | _ => (w.look? now stopping q allowance).bind fun result =>
      (result.arrival.frame?.bind Frame.payload?).bind (w.pushOf now q result.allowance)

theorem queue_handleRecord (w : Worker) (now : Instant) (q : Queue) (events : List Event) (allowance : Nat)
    (payload : Bytes) : (w.handleRecord now q events allowance payload).queue
      = (w.pushOf now q allowance payload).elim q q.apply := by
  unfold handleRecord pushOf
  split
  · rfl
  · simp only [Option.elim_some, Queue.apply]
    split
    · next q' result hpush =>
        rw [hpush]
        cases result with
        | taken => rfl
        | failed e => rfl
    · next q' ticket hpush => rw [hpush]

theorem queue_takeFrame (w : Worker) (now deadline : Instant) (q : Queue) (allowance : Nat) :
    let result := w.reader.next now (w.newest? q) allowance
    (w.takeFrame now deadline q allowance).queue
      = ((result.arrival.frame?.bind Frame.payload?).bind (w.pushOf now q result.allowance)).elim q q.apply := by
  unfold takeFrame await
  generalize w.reader.next now (w.newest? q) allowance = result
  simp only
  cases result.arrival with
  | frame frame =>
      cases frame with
      | record payload => exact queue_handleRecord ..
      | malformed unit =>
          simp only [handleMalformed]
          split
          · rfl
          · rfl
  | ended => rfl
  | failed cause =>
      cases cause with
      | io cause => rfl
      | desync reason => rfl
  | blocked =>
      simp only
      split
      · rfl
      · rfl
  | spent =>
      simp only
      split
      · rfl
      · rfl

theorem queue_begin (w : Worker) (now deadline : Instant) (stopping : Bool) (q : Queue) (allowance : Nat) :
    let look := if allowance = 0 ∨ stopping = true then none else some (w.reader.next now (w.newest? q) allowance)
    (w.begin now deadline stopping q allowance).queue
      = (look.bind fun result =>
          (result.arrival.frame?.bind Frame.payload?).bind (w.pushOf now q result.allowance)).elim q q.apply := by
  unfold begin
  by_cases hspent : allowance = 0
  · simp only [if_pos hspent, if_pos (Or.inl hspent : allowance = 0 ∨ stopping = true)]
    rfl
  · by_cases hstop : stopping = true
    · simp only [if_neg hspent, if_pos hstop, if_pos (Or.inr hstop : allowance = 0 ∨ stopping = true)]
      rfl
    · simp only [if_neg hspent, if_neg hstop, if_neg (not_or.mpr ⟨hspent, hstop⟩)]
      exact queue_takeFrame w now deadline q allowance

/-- A step does one thing to the queue, or nothing. -/
theorem queue_step (w : Worker) (now : Instant) (stopping : Bool) (q : Queue) (allowance : Nat) :
    (w.step now stopping q allowance).queue = (w.operation now stopping q allowance).elim q q.apply := by
  unfold Worker.step operation look?
  cases w.phase with
  | starting => rfl
  | ready => exact queue_begin w now _ stopping q allowance
  | waiting deadline => exact queue_begin w now deadline stopping q allowance
  | holding payload => exact queue_handleRecord w now q [] allowance payload
  | pushing ticket =>
      show _ = (q.resume ticket).1
      simp only
      split
      · next q' result hresume =>
          rw [hresume]
          cases result with
          | taken => rfl
          | failed e => rfl
      · next q' hresume =>
          have hresumed := q.resumed_resume ticket
          rw [hresume] at hresumed ⊢
          cases hresumed
          rfl

end Worker

/-- The record of a push that begins. -/
def Queue.Operation.record? : Queue.Operation → Option Record
  | .push _ r => some r
  | _ => none

/-- What has become of the frames that a worker has taken. -/
structure Book where
  frames : List Frame := []
  /-- The records of the pushes that have begun. -/
  offered : List Record := []
  /-- How these pushes have ended. -/
  results : List PushResult := []
  /-- The malformed units that have been reported. -/
  reported : List Malformed := []
  /-- The records that are in the queue or have been. -/
  entered : List Record := []
  /-- After how many turns the worker could go on. -/
  progress : Nat := 0
  deriving DecidableEq, Repr

namespace Book

def take (b : Book) (frame : Option Frame) : Book :=
  { b with frames := b.frames ++ frame.toList }

theorem take_none (b : Book) : b.take none = b := by
  rw [take, Option.toList_none, List.append_nil]

/-- The book after a turn that found the queue `q`. -/
def after (b : Book) (q : Queue) (t : Worker.Turn) (op : Option Queue.Operation) : Book :=
  { b with
    offered := b.offered ++ (op.bind Queue.Operation.record?).toList
    results := b.results ++ (op.bind q.result?).toList
    reported := b.reported ++ t.events.filterMap Worker.Event.unit?
    entered := b.entered ++ t.queue.buffered.drop q.buffered.length
    progress := b.progress + if t.next.isGoing then 1 else 0 }

end Book

structure Stint where
  worker : Worker
  queue : Queue
  /-- Whether the signal to shut down has been given. -/
  stopping : Bool := false
  closing : Option Closing := none
  book : Book := {}
  deriving DecidableEq, Repr

namespace Stint

inductive Move where
  | turn (now : Instant) (allowance : Nat)
  /-- Others do something to the queue. -/
  | other (op : Queue.Operation)
  /-- The consumer goes away. -/
  | leave
  | signal
  deriving DecidableEq, Repr

def start (a : Assignment) (o : QueueOptions) : Stint :=
  { worker := a.worker, queue := .start o }

def turn (s : Stint) (now : Instant) (allowance : Nat) : Stint :=
  let t := s.worker.step now s.stopping s.queue allowance
  { worker := t.next.worker?.getD s.worker
    queue := t.queue
    stopping := s.stopping || t.events.contains .signalled
    closing := t.next.closing?
    book := (s.book.take (s.worker.frame? now s.stopping s.queue allowance)).after s.queue t
      (s.worker.operation now s.stopping s.queue allowance) }

/-- A connection that has ended has no more turns, and only its worker asks for the results of its pushes. -/
def step (s : Stint) : Move → Stint
  | .turn now allowance => if s.closing.isSome then s else s.turn now allowance
  | .other op => if s.worker.ticket?.map .resume = some op then s else { s with queue := s.queue.apply op }
  | .leave => { s with queue := s.queue.abandon }
  | .signal => { s with stopping := true }

def run (s : Stint) (moves : List Move) : Stint :=
  moves.foldl step s

theorem run_append (s : Stint) (moves more : List Move) : s.run (moves ++ more) = (s.run moves).run more :=
  List.foldl_append ..

end Stint

end LogIntake
