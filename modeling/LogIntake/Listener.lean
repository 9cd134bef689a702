import LogIntake.Intake

/-!
# The listener

A listener accepts connections and gives each to a worker of its own, as long as there are fewer workers
than it may have; further connections are rejected. When a connection cannot be accepted it waits a little
and goes on. When the listening socket is of no use any more, or the signal to shut down has been given, it
accepts nothing more, tells the workers to shut down, waits for them a limited time, and reports. Whatever
accepting gives, and the end of a pause, costs one unit of the allowance that a listener has for each of its
turns.
-/

namespace LogIntake

/-- What accepting gives. -/
inductive Accepted where
  | connection (peer : SocketAddress) (steps : List Source.Step)
  | failed (cause : IoError)
  deriving DecidableEq, Repr

/-- What accepting gives at some time at the earliest. -/
structure Offer where
  at_ : Instant
  accepted : Accepted
  deriving DecidableEq, Repr

/-- What a listener has counted. -/
structure ListenerStats where
  accepted : Nat := 0
  rejected : Nat := 0
  acceptErrors : Nat := 0
  /-- How many workers have not ended. -/
  active : Nat := 0
  deriving DecidableEq, Repr

/-- What a listener reports when it has stopped. -/
structure ListenerReport where
  localAddress : Option SocketAddress
  accepted : Nat
  rejected : Nat
  acceptErrors : Nat
  /-- How many workers had not ended in time. -/
  unfinished : Nat
  deriving DecidableEq, Repr

namespace Listener

inductive Phase where
  | starting
  | accepting
  /-- Waiting after a connection could not be accepted. -/
  | backingOff (until_ : Instant)
  /-- Waiting for the workers; the failure is what made the socket useless. -/
  | stopping (deadline : Instant) (failure : Option IoError)
  | stopped (failure : Option IoError) (report : ListenerReport)
  deriving DecidableEq, Repr

end Listener

structure Listener where
  options : ListenerOptions
  /-- The address listened on, if the socket can tell. -/
  localAddress : Option SocketAddress
  /-- What accepting will give, one after the other. -/
  offers : List Offer := []
  phase : Listener.Phase := .starting
  /-- Whether the signal to shut down has been given. -/
  cancelled : Bool := false
  /-- How many more workers there may be. -/
  slots : Nat
  nextConnection : Nat := 1
  stats : ListenerStats := {}
  /-- The peers that were rejected. -/
  rejected : List SocketAddress := []
  acceptErrors : List IoError := []
  log : List LogLine := []
  deriving DecidableEq, Repr

namespace Listener

def start (options : ListenerOptions) (localAddress : Option SocketAddress) (offers : List Offer) : Listener :=
  { options, localAddress, offers, slots := options.maxConnections }

def write (l : Listener) (level : LogLevel) (message : String) : Listener :=
  { l with log := l.log ++ [⟨level, message⟩] }

/-- Adds to a counter. -/
def count (i : Intake) (c : Counter) : Intake :=
  { i with ledger.metrics := i.ledger.metrics.add c 1 }

/-- Lets the gauge of active connections rise or fall. -/
def gauge (i : Intake) (f : Nat → Nat) : Intake :=
  { i with ledger.metrics := i.ledger.metrics.shift .activeConnections f }

/-- Turns a connection away. -/
def reject (l : Listener) (i : Intake) (peer : SocketAddress) : Listener × Intake :=
  ({ l with stats.rejected := l.stats.rejected + 1, rejected := l.rejected ++ [peer] }.write .warn
      "max connections reached, rejecting connection",
    count i .rejected)

/-- Gives a connection to a new worker. -/
def serve (l : Listener) (i : Intake) (peer : SocketAddress) (steps : List Source.Step) : Listener × Intake :=
  let stats := { l.stats with accepted := l.stats.accepted + 1, active := l.stats.active + 1 }
  ({ l with stats, slots := l.slots - 1, nextConnection := l.nextConnection + 1 }.write .debug "accepted connection",
    (gauge (count i .accepted) (· + 1)).addWorker (.start l.nextConnection peer l.options.worker steps))

/-- Takes a connection on, if there may be one more worker. -/
def dispatch (l : Listener) (i : Intake) (peer : SocketAddress) (steps : List Source.Step) : Listener × Intake :=
  if l.slots = 0 then l.reject i peer else l.serve i peer steps

/-- Gives back what a worker had when it has ended. -/
def release (l : Listener) (i : Intake) : Listener × Intake :=
  ({ l with stats.active := l.stats.active - 1, slots := l.slots + 1 }, gauge i (· - 1))

/-- Accepts nothing more, and tells the workers to shut down. -/
def stop (l : Listener) (i : Intake) (failure : Option IoError) : Listener × Intake :=
  ({ l with phase := .stopping (i.now.plus l.options.shutdownGrace) failure, offers := [] }, i.stop)

/-- Waits a little after a connection could not be accepted. -/
def backOff (l : Listener) (i : Intake) (cause : IoError) : Listener × Intake :=
  ({ l with
      stats.acceptErrors := l.stats.acceptErrors + 1
      acceptErrors := l.acceptErrors ++ [cause]
      phase := .backingOff (i.now.plus l.options.acceptBackoff) }.write .warn
        "transient accept failure, continuing",
    count i .acceptErrors)

/-- Reports at the end. -/
def finish (l : Listener) (i : Intake) (failure : Option IoError) : Listener :=
  let late := if i.workers.isEmpty then l
    else l.write .warn "workers did not finish within shutdown grace period"
  let report : ListenerReport :=
    { localAddress := l.localAddress, accepted := l.stats.accepted, rejected := l.stats.rejected
      acceptErrors := l.stats.acceptErrors, unfinished := i.workers.length }
  { late with phase := .stopped failure report }.write .info "ingest listener stopped"

/-- Accepts what comes next, if it has come. -/
def accept (l : Listener) (i : Intake) (allowance : Nat) : Listener × Intake × Intake.Status :=
  match l.offers with
  | [] => (l, i, .blocked)
  | offer :: rest =>
    if i.now.nanos < offer.at_.nanos then (l, i, .blocked)
    else
      let l := { l with offers := rest }
      match offer.accepted with
      | .connection peer steps => let (l, i) := l.dispatch i peer steps; (l, i, .goesOn (allowance - 1))
      | .failed cause =>
        if cause.endsListening then
          let (l, i) := (l.write .error "listening socket failed, stopping accept loop").stop i (some cause)
          (l, i, .goesOn (allowance - 1))
        else
          let (l, i) := l.backOff i cause
          (l, i, .goesOn (allowance - 1))

/-- Takes a step. Accepting and backing off go on only with some allowance. -/
def step (l : Listener) (i : Intake) (allowance : Nat) : Listener × Intake × Intake.Status :=
  match l.phase with
  | .starting =>
    ({ l with phase := .accepting }.write .info "ingest listener accepting connections", i, .goesOn allowance)
  | .accepting =>
    if allowance = 0 then (l, i, .spent)
    else if l.cancelled then
      let (l, i) := (l.write .info "ingest listener received shutdown signal").stop i none
      (l, i, .goesOn allowance)
    else l.accept i allowance
  | .backingOff until_ =>
    if allowance = 0 then (l, i, .spent)
    else if l.cancelled then ({ l with phase := .accepting }, i, .goesOn allowance)
    else if until_.nanos ≤ i.now.nanos then ({ l with phase := .accepting }, i, .goesOn (allowance - 1))
    else (l, i, .blocked)
  | .stopping deadline failure =>
    if i.workers.isEmpty || deadline.nanos ≤ i.now.nanos then (l.finish i failure, i, .ended)
    else (l, i, .blocked)
  | .stopped _ _ => (l, i, .ended)

/-- The next time at which a listener that waits can go on by itself. -/
def nextTime (l : Listener) : Option Instant :=
  match l.phase with
  | .starting => none
  | .accepting => l.offers.head?.map Offer.at_
  | .backingOff until_ => some until_
  | .stopping deadline _ => some deadline
  | .stopped _ _ => none

def hasStopped (l : Listener) : Bool :=
  match l.phase with
  | .stopped _ _ => true
  | _ => false

/-- The report of a listener that was told to stop, or the failure of its socket. -/
def result? (l : Listener) : Option (Except IntakeError ListenerReport) :=
  match l.phase with
  | .stopped none report => some (.ok report)
  | .stopped (some cause) _ => some (.error (.listener cause))
  | _ => none

end Listener

end LogIntake
