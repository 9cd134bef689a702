import LogIntake.Listener

/-!
# Runs in simulated time

A listener, or one worker alone, runs against a plan: what the consumer of the queue does, and when. Only
one task runs at a time, and its turn lasts until it has to wait or has used up its allowance. The listener
comes first whenever it can run, but it is looked at only after a round of workers, which take their turns in
the order in which they could. Tasks that have used up their allowance can run again after the round, the
last of them first. When nothing can run, the clock jumps to the next point of time at which something
happens.
-/

namespace LogIntake

namespace Execution

/-- What is done from outside. -/
inductive Act where
  /-- The consumer takes out up to so many records. -/
  | pop (n : Nat)
  | close
  /-- The consumer goes away. -/
  | leave
  /-- The signal to shut down is given. -/
  | stop
  /-- The counters of the listener are looked at. -/
  | probe
  deriving DecidableEq, Repr

/-- What acts have brought to light. -/
inductive Finding where
  | records (records : List Record)
  | stats (stats : ListenerStats)
  deriving DecidableEq, Repr

/-- Who can run. -/
inductive Task where
  | listener
  | worker (connection : Nat)
  deriving DecidableEq, Repr

end Execution

structure Execution where
  intake : Intake
  /-- The listener; a worker may run without one. -/
  listener : Option Listener := none
  /-- What is to be done, and when, in the order of time. -/
  plan : List (Instant × Execution.Act) := []
  /-- Whose turn it is, with the allowance that is left. -/
  turn : Option (Execution.Task × Nat) := none
  /-- How many workers may still have a turn in this round; none has begun before the listener is looked at. -/
  round : Option Nat := none
  /-- Whether the listener can run. -/
  listenerReady : Bool := false
  /-- The connections whose workers can run, in the order in which they will. -/
  agenda : List Nat := []
  /-- The tasks that have used up their allowance, the last of them first. -/
  spent : List Execution.Task := []
  findings : List Execution.Finding := []
  /-- Whether the consumer is there. -/
  consumer : Bool := true
  deriving DecidableEq, Repr

namespace Execution

/-- How much a task may do in one turn. -/
def allowance : Nat := 128

/-- How many workers have a turn before the listener is looked at again. -/
def roundLength : Nat := 61

/-! ## Who can run -/

/-- Puts workers at the end of the agenda, unless they are on it. -/
def wake (s : Execution) (connections : List Nat) : Execution :=
  { s with agenda := s.agenda ++ connections.filter (!s.agenda.contains ·) }

def wakeWorkers (s : Execution) : Execution :=
  s.wake (s.intake.workers.map (·.connection))

def wakeListener (s : Execution) : Execution :=
  { s with listenerReady := s.listener.isSome }

def wakeTask (s : Execution) : Task → Execution
  | .listener => s.wakeListener
  | .worker connection => s.wake [connection]

/-- Begins a round, in which the listener comes first if it can run. -/
def beginRound (s : Execution) : Execution :=
  { s with
    round := some roundLength
    listenerReady := false
    turn := if s.listenerReady then some (.listener, allowance) else none }

/-- Ends a round: who has used up its allowance can run again. -/
def endRound (s : Execution) : Execution :=
  s.spent.foldl wakeTask { s with round := none, spent := [] }

/-- Gives the signal to shut down. -/
def stop (s : Execution) : Execution :=
  wakeListener (wakeWorkers
    { s with intake := s.intake.stop, listener := s.listener.map ({ · with cancelled := true }) })

/-! ## Turns -/

/-- Goes on with the turn of a task, or ends it. -/
def settle (s : Execution) (task : Task) : Intake.Status → Execution
  | .goesOn left => { s with turn := some (task, left) }
  | .spent => { s with spent := task :: s.spent }
  | _ => s

/-- Lets a worker take a step, and the listener take note of its end. -/
def runWorker (s : Execution) (left : Nat) (w : Worker) : Execution :=
  let (intake, status, signalled) := s.intake.stepWorker w left
  let s := { s with intake }
  let s := if signalled then s.stop else s
  match status, s.listener with
  | .ended, some l =>
    let (l, intake) := l.release s.intake
    let s := { s with listener := some l, intake }
    if s.intake.workers.isEmpty then s.wakeListener else s
  | _, _ => s.settle (.worker w.connection) status

/-- Lets the listener take a step; a new worker can run, and so can all workers when they are told to shut
down. -/
def runListener (s : Execution) (left : Nat) (l : Listener) : Execution :=
  let (next, intake, status) := l.step s.intake left
  let told := intake.stopping && !s.intake.stopping
  let added := (intake.workers.map (·.connection)).filter (l.nextConnection ≤ ·)
  let s := { s with listener := some next, intake }.wake added
  (if told then s.wakeWorkers else s).settle .listener status

/-- Lets a task take a step of its turn. -/
def run (s : Execution) (task : Task) (left : Nat) : Execution :=
  let s := { s with turn := none }
  match task with
  | .listener => s.listener.elim s (s.runListener left)
  | .worker connection => (s.intake.worker? connection).elim s (s.runWorker left)

/-! ## Time -/

/-- Does what is planned. -/
def act (s : Execution) : Act → Execution
  | .pop n =>
    if s.consumer then
      let (queue, records) := s.intake.queue.drain n
      { s with intake.queue := queue, findings := s.findings ++ [.records records] }
    else s
  | .close => if s.consumer then { s with intake.queue := s.intake.queue.close } else s
  | .leave => { s with intake.queue := s.intake.queue.abandon, consumer := false }
  | .stop => s.stop
  | .probe => { s with findings := s.findings ++ s.listener.toList.map (.stats ·.stats) }

/-- Whether a time has come. -/
def isDue (s : Execution) (t : Option Instant) : Bool :=
  t.any (·.nanos ≤ s.intake.now.nanos)

/-- When something happens next. -/
def nextTime (s : Execution) : Option Instant :=
  ((s.plan.take 1).map (·.1)
    ++ s.intake.queue.nextDeadline.toList
    ++ s.intake.workers.filterMap Worker.nextTime
    ++ (s.listener.bind Listener.nextTime).toList).foldl
    (fun best t => some (best.elim t fun b => if t.nanos < b.nanos then t else b)) none

/-- Lets the clock jump to a point of time, at which what is planned is done and tasks wake up. -/
def jump (s : Execution) (t : Instant) : Execution :=
  let s := { s with intake := s.intake.elapse t }
  let acts := (s.plan.takeWhile fun p => s.isDue (some p.1)).map (·.2)
  let s := acts.foldl act { s with plan := s.plan.drop acts.length, round := none }
  let s := s.wake s.intake.resumable
  let s := s.wake ((s.intake.workers.filter (s.isDue ·.nextTime)).map (·.connection))
  if s.isDue (s.listener.bind Listener.nextTime) then s.wakeListener else s

/-- Whether the run has come to its end: the listener has stopped, or the only worker has ended. -/
def isOver (s : Execution) : Bool :=
  match s.listener with
  | some l => l.hasStopped
  | none => s.intake.workers.isEmpty

/-- What happens next, if anything does. -/
def step (s : Execution) : Option Execution :=
  if s.isOver then none
  else
    match s.turn, s.round, s.agenda with
    | some (task, left), _, _ => some (s.run task left)
    | none, none, _ => some s.beginRound
    | none, some 0, _ => some s.endRound
    | none, some (more + 1), connection :: rest =>
      some { s with turn := some (.worker connection, allowance), round := some more, agenda := rest }
    | none, some _, [] => if s.listenerReady || !s.spent.isEmpty then some s.endRound else s.nextTime.map s.jump

/-- Takes steps until nothing happens, at most `fuel` of them. -/
def steps : Nat → Execution → Execution
  | 0, s => s
  | fuel + 1, s => s.step.elim s (steps fuel)

/-- How much an offer can bring about. -/
def offerWeight : Offer → Nat
  | ⟨_, .connection _ steps⟩ => 1 + (Source.mk steps none).weight
  | ⟨_, .failed _⟩ => 1

/-- How much can happen in all. -/
def weight (s : Execution) : Nat :=
  10 + s.plan.length + s.intake.workers.foldr (·.reader.source.weight + ·) 0
    + s.listener.elim 0 (·.offers.foldr (offerWeight · + ·) 0)

/-- Runs to the end. -/
def complete (s : Execution) : Execution :=
  steps (16 * s.weight * s.weight) s

/-- The run of one worker, which has the only producer of the queue. -/
def ofWorker (options : WorkerOptions) (queue : QueueOptions) (connection : Nat) (peer : SocketAddress)
    (source : List Source.Step) (plan : List (Instant × Act)) : Execution :=
  complete
    { intake := { queue := .start queue, workers := [.start connection peer options source] }
      plan
      agenda := [connection] }

/-- The run of a listener. -/
def ofListener (options : ListenerOptions) (queue : QueueOptions) (localAddress : Option SocketAddress)
    (offers : List Offer) (plan : List (Instant × Act)) : Execution :=
  complete
    { intake := { queue := .start queue }
      listener := some (.start options localAddress offers)
      plan
      listenerReady := true }

/-- The records that the queue holds; none are left when the consumer has gone away. -/
def rest (s : Execution) : List Record :=
  s.intake.queue.buffered

end Execution

end LogIntake
