import LogIntake.Queue.Basic

/-!
# Sessions with a queue

A session is a list of steps that producers and the consumer of one queue take one after the other, while a
clock stands still between the steps. A push may be left to wait on its own; its result is known after the
step in which it is settled. A push for which the session itself waits lets the clock run on.
-/

namespace LogIntake.Queue

/-- The name of a push that waits on its own. -/
abbrev PushName := String

inductive Step where
  | push (producer : Nat) (payload : Bytes)
  | spawnPush (producer : Nat) (name : PushName) (payload : Bytes)
  | advance (span : Duration)
  | clone (producer : Nat)
  | dropProducer (producer : Nat)
  | dropConsumer
  | tryRecv
  | recv
  | drain (limit : Option Nat)
  | recvBatch (limit : Nat)
  | close
  deriving DecidableEq, Repr

/-- What a step answers. -/
inductive Answer where
  | nothing
  | pushed (result : PushResult)
  | producer (index : Nat)
  | record (record : Option Record)
  | records (records : List Record)
  | pending
  | noProducer
  | noConsumer
  deriving DecidableEq, Repr

structure Session where
  queue : Queue
  now : Instant := ⟨0⟩
  /-- Which producers are still there, by index. -/
  handles : List Bool := [true]
  consumer : Bool := true
  /-- How many records have been made. -/
  made : Nat := 0
  /-- The pushes that wait on their own, with their tickets. -/
  spawned : List (PushName × Nat) := []
  deriving DecidableEq, Repr

/-- What can be seen after a step. -/
structure View where
  answer : Answer
  /-- The pushes on their own that have been settled since the step before. -/
  done : List (PushName × PushResult)
  queue : Queue
  /-- Whether there is a producer through which the queue can be seen. -/
  producer : Bool
  consumer : Bool
  deriving DecidableEq, Repr

namespace Session

def start (o : QueueOptions) : Session :=
  { queue := .start o }

/-- The peer from which the records of sessions come: 192.0.2.10:40000. -/
def peer : SocketAddress :=
  .v4 ⟨192, 0, 2, 10⟩ 40000

def hasProducer (s : Session) (index : Nat) : Bool :=
  s.handles.getD index false

/-- The next record of a producer. -/
def make (s : Session) (producer : Nat) (payload : Bytes) : Session × Record :=
  ({ s with made := s.made + 1 }, ⟨payload, peer, producer, s.made⟩)

/-- Waits for the result of a push until its time is up. -/
def await (s : Session) (ticket : Nat) : Session × PushResult :=
  let now := s.now.plus s.queue.pushTimeout
  let (queue, result) := (s.queue.expire now).resume ticket
  ({ s with queue, now }, result.getD (.failed .closed))

/-- Lets the clock run on. -/
def advance (s : Session) (span : Duration) : Session :=
  let now := s.now.plus span
  { s with now, queue := s.queue.expire now }

/-- A step of a producer. -/
def produce (s : Session) (producer : Nat) (payload : Bytes) : Session × Answer :=
  let (s, r) := s.make producer payload
  match s.queue.push s.now r with
  | (queue, .done result) => ({ s with queue }, .pushed result)
  | (queue, .waits ticket) =>
    let (s, result) := await { s with queue } ticket
    (s, .pushed result)

/-- A push on its own, with a producer of its own until it is settled. -/
def spawn (s : Session) (producer : Nat) (name : PushName) (payload : Bytes) :
    Session × List (PushName × PushResult) :=
  let (s, r) := s.make producer payload
  match s.queue.push s.now r with
  | (queue, .done result) => ({ s with queue }, [(name, result)])
  | (queue, .waits ticket) =>
    ({ s with queue := queue.addProducer, spawned := s.spawned ++ [(name, ticket)] }, [])

/-- A step of the consumer. -/
def consume {α : Type} (s : Session) (take : Queue → Queue × α) (answer : α → Answer) : Session × Answer :=
  if s.consumer then
    let (queue, a) := take s.queue
    ({ s with queue }, answer a)
  else (s, .noConsumer)

/-- The answer of a consumer that may have to wait. -/
def ofPoll {α : Type} (answer : α → Answer) : Poll α → Answer
  | .ready a => answer a
  | .pending => .pending

/-- Goes on with the pushes on their own that can go on. -/
def resume (s : Session) : Session × List (PushName × PushResult) :=
  s.spawned.foldl (fun (s, done) (name, ticket) =>
    match s.queue.resume ticket with
    | (queue, some result) =>
      ({ s with queue := queue.dropProducer, spawned := s.spawned.filter (·.2 != ticket) }, done ++ [(name, result)])
    | (_, none) => (s, done)) (s, [])

/-- Takes a step; the second answer holds a push on its own that is settled at once. -/
def act (s : Session) : Step → Session × Answer × List (PushName × PushResult)
  | .push producer payload =>
    if s.hasProducer producer then let (s, a) := s.produce producer payload; (s, a, [])
    else (s, .noProducer, [])
  | .spawnPush producer name payload =>
    if s.hasProducer producer then let (s, done) := s.spawn producer name payload; (s, .nothing, done)
    else (s, .noProducer, [])
  | .advance span => (s.advance span, .nothing, [])
  | .clone producer =>
    if s.hasProducer producer then
      ({ s with queue := s.queue.addProducer, handles := s.handles ++ [true] }, .producer s.handles.length, [])
    else (s, .noProducer, [])
  | .dropProducer producer =>
    if s.hasProducer producer then
      ({ s with queue := s.queue.dropProducer, handles := s.handles.set producer false }, .nothing, [])
    else (s, .nothing, [])
  | .dropConsumer =>
    if s.consumer then ({ s with queue := s.queue.abandon, consumer := false }, .nothing, [])
    else (s, .nothing, [])
  | .tryRecv => let (s, a) := s.consume tryRecv .record; (s, a, [])
  | .recv => let (s, a) := s.consume Queue.recv (ofPoll .record); (s, a, [])
  | .drain limit => let (s, a) := s.consume (fun q => q.drain (limit.getD q.length)) .records; (s, a, [])
  | .recvBatch limit => let (s, a) := s.consume (·.recvBatch limit) (ofPoll .records); (s, a, [])
  | .close => let (s, a) := s.consume (fun q => (q.close, ())) (fun _ => .nothing); (s, a, [])

/-- Takes a step and looks at the queue. -/
def step (s : Session) (t : Step) : Session × View :=
  let (s, answer, atOnce) := s.act t
  let (s, done) := s.resume
  (s, ⟨answer, atOnce ++ done, s.queue, s.handles.any id, s.consumer⟩)

/-- Takes steps one after the other. -/
def run (s : Session) : List Step → Session × List View
  | [] => (s, [])
  | t :: rest =>
    let (s, view) := s.step t
    let (last, views) := s.run rest
    (last, view :: views)

end Session

end LogIntake.Queue
