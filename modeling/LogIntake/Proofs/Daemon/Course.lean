import LogIntake.Daemon
import LogIntake.Proofs.Site.Events

/-!
# Courses of daemons

The course of a daemon begins when it has been started. It goes on in moves that come in any order: something
happens at the site of the service, the drain task takes a batch, shutdown takes its next step as soon as it can.
Once the drain task has been told to end, it may still take a batch instead of noticing that. What the queue has
taken in and handed out is noted meanwhile, move by move.
-/

namespace LogIntake

namespace Service

/-- The site of a service that has been started. -/
def site? (s : Service) : Option Site :=
  s.listener.map fun l => { listener := l, intake := s.intake }

def withSite (s : Service) (t : Site) : Service :=
  { s with listener := some t.listener, intake := t.intake }

/-- A start leaves a service as it is, or begins a run if none is under way. -/
theorem start_cases (s : Service) (bound : Except IoError SocketAddress) :
    (∃ e, s.start bound = (s, .error e)) ∨
      (s.state ≠ .running ∧ ∃ address, bound = .ok address ∧ s.start bound = (s.begin address, .ok ())) := by
  unfold Service.start
  by_cases hstate : s.state = .running
  · exact Or.inl ⟨_, if_pos hstate⟩
  · rw [if_neg hstate]
    cases s.options.listener.validate with
    | error e => exact Or.inl ⟨_, rfl⟩
    | ok _ =>
        cases bound with
        | error cause => exact Or.inl ⟨_, rfl⟩
        | ok address => exact Or.inr ⟨hstate, address, rfl, rfl⟩

end Service

namespace Daemon

/-- How far a daemon that has been started has got with its shutdown. -/
inductive Stage where
  | running
  /-- The signal to shut down has been given, and the listener's task is waited for. -/
  | stopping
  /-- The listener's task has ended, and the tasks of the daemon have been told to end, too. -/
  | signalled (stopped : Except Fault Unit)
  /-- With what has become of the service, and what shutdown has returned. -/
  | finished (stopped : Except Fault Unit) (result : Except DaemonError Nat)
  deriving DecidableEq, Repr

structure Course where
  daemon : Daemon
  stage : Stage := .running
  /-- What is told of the listener's task if it has broken down. -/
  broken : Option String := none
  /-- How many records the drain task has taken. -/
  drained : Nat := 0
  traffic : Queue.Traffic := {}
  deriving DecidableEq, Repr

namespace Course

inductive Move where
  | event (e : Site.Event)
  /-- The listener's task breaks down. -/
  | breakDown (message : String)
  /-- The drain task takes a batch, if there is one to take. -/
  | batch
  /-- Shutdown begins. -/
  | shutdown
  /-- The end of the listener's task is noticed. -/
  | join
  /-- The drain task notices that it has been told to end. -/
  | finishDrain
  | finishUptime
  | finish
  deriving DecidableEq, Repr

def queue (c : Course) : Queue :=
  c.daemon.service.intake.queue

def happen (c : Course) (e : Site.Event) : Course :=
  match c.daemon.service.site? with
  | some s =>
    { c with
      daemon.service := c.daemon.service.withSite (s.occur e)
      traffic := (Queue.run (s.intake.queue, c.traffic) (s.operations e)).2 }
  | none => c

/-- How the listener's task has ended, if it has. -/
def outcome? (c : Course) : Option (Except Fault ListenerReport) :=
  match c.broken with
  | some message => some (.error (.lifecycle (.failed message)))
  | none => (c.daemon.service.listener.bind Listener.result?).map (·.mapError IntakeError.toFault)

def breakDown (c : Course) (message : String) : Course :=
  if c.outcome?.isSome then c else { c with broken := some message }

/-- The drain task takes a batch; an empty one tells it that no more will come. -/
def takeBatch (c : Course) : Course :=
  match c.daemon.drain, c.queue.recvBatch batchSize with
  | .running taken, (queue, .ready batch) =>
    let drain := if batch.isEmpty then .ended else .running (taken + batch.length)
    { c with
      daemon := { c.daemon with drain, service.intake.queue := queue }
      drained := taken + batch.length
      traffic := c.traffic.note c.queue (.recvBatch batchSize) }
  | _, _ => c

def beginShutdown (c : Course) : Course :=
  match c.stage, c.daemon.service.site? with
  | .running, some s =>
    let service := { c.daemon.service.withSite s.stop with state := .stopped }
    { c with daemon := { c.daemon.write .info "stopping ingest service" with service }, stage := .stopping }
  | _, _ => c

def join (c : Course) : Course :=
  match c.stage, c.outcome? with
  | .stopping, some outcome =>
    let report := outcome.toOption.or c.daemon.service.report
    { c with daemon.service.report := report, stage := .signalled (outcome.map fun _ => ()) }
  | _, _ => c

def finishDrain (c : Course) : Course :=
  match c.stage, c.daemon.drain with
  | .signalled _, .running _ =>
    { c with
      daemon := c.daemon.finishDrain.1
      drained := c.daemon.finishDrain.2
      traffic := c.traffic.note c.queue.close (.drain c.queue.close.length) }
  | _, _ => c

def finishUptime (c : Course) : Course :=
  match c.stage with
  | .signalled _ => { c with daemon := c.daemon.finishUptime }
  | _ => c

/-- Shutdown returns when the service has been stopped, well or not. -/
def conclude (c : Course) : Except Fault Unit → Course
  | .error e => { c with stage := .finished (.error e) (.error (.stop e)) }
  | .ok () =>
    let daemon := c.daemon.write .info "loghaul-daemon shut down"
    { c with daemon, stage := .finished (.ok ()) (.ok c.drained) }

/-- Shutdown finishes when no task of the daemon is left. -/
def finish (c : Course) : Course :=
  match c.stage, c.daemon.drain, c.daemon.uptime with
  | .signalled stopped, .ended, false => c.conclude stopped
  | _, _, _ => c

def step (c : Course) : Move → Course
  | .event (.listener allowance) => if c.broken.isSome then c else c.happen (.listener allowance)
  | .event e => c.happen e
  | .breakDown message => c.breakDown message
  | .batch => c.takeBatch
  | .shutdown => c.beginShutdown
  | .join => c.join
  | .finishDrain => c.finishDrain
  | .finishUptime => c.finishUptime
  | .finish => c.finish

def run (c : Course) (moves : List Move) : Course :=
  moves.foldl step c

/-! ## The invariant -/

/-- Where the drain task stands: as long as it runs the queue is open, and it leaves nothing behind. -/
def Draining (c : Course) : Prop :=
  match c.daemon.drain with
  | .unused => False
  | .running taken => taken = c.drained ∧ c.queue.closed = false
  | .ended => c.queue.Shut ∧ c.queue.buffered = []

/-- What is so once shutdown has finished: no task of the daemon is left, and the result is how many records
the drain task has taken, or why the service was not stopped well. -/
def Settled (c : Course) : Prop :=
  match c.stage with
  | .finished stopped result =>
    c.daemon.drain = .ended ∧ c.daemon.uptime = false ∧
      result = (stopped.mapError DaemonError.stop).map fun _ => c.drained
  | _ => True

/-- The service has a listener. It is running until shutdown begins, and so is the drain task. -/
structure Up (c : Course) : Prop where
  listener : c.daemon.service.listener.isSome = true
  running : c.stage = .running → c.daemon.service.state = .running ∧ c.daemon.drain ≠ .ended

structure Sound (c : Course) : Prop where
  up : c.Up
  agrees : c.queue.Agrees c.traffic
  supplied : Site.Supplied c.daemon.service.intake
  drained : c.drained = c.traffic.handed.length
  draining : c.Draining
  settled : c.Settled

variable {c : Course}

/-- The service has gone on without the consumer, and the daemon is as it was. -/
structure Happened (c c' : Course) : Prop where
  operations : ∃ ops, (c'.queue, c'.traffic) = Queue.run (c.queue, c.traffic) ops ∧
    ∀ op ∈ ops, op.ofConsumer = false
  supplied : Site.Supplied c.daemon.service.intake → Site.Supplied c'.daemon.service.intake
  up : c.Up → c'.Up
  stage : c'.stage = c.stage
  drained : c'.drained = c.drained
  drain : c'.daemon.drain = c.daemon.drain
  uptime : c'.daemon.uptime = c.daemon.uptime

theorem happened_happen (c : Course) (e : Site.Event) : Happened c (c.happen e) := by
  unfold happen
  split
  · next s hs =>
      have hintake : s.intake = c.daemon.service.intake := by
        obtain ⟨l, -, rfl⟩ := Option.map_eq_some_iff.mp hs
        rfl
      refine ⟨⟨s.operations e, ?_, fun op hop => Site.ofConsumer_of_mem_operations hop⟩, ?_,
        fun h => ⟨rfl, h.running⟩, rfl, rfl, rfl, rfl⟩
      · have hqueue : c.queue = s.intake.queue := congrArg Intake.queue hintake.symm
        rw [hqueue]
        refine Prod.ext ?_ rfl
        rw [Queue.fst_run]
        exact s.queue_occur e
      · rw [← hintake]
        exact fun h => Site.supplied_occur h e
  · exact ⟨⟨[], rfl, nofun⟩, id, id, rfl, rfl, rfl, rfl⟩

theorem Happened.quiet {c c' : Course} (h : Happened c c') :
    Queue.Quiet (c.queue, c.traffic) (c'.queue, c'.traffic) := by
  obtain ⟨ops, hrun, hops⟩ := h.operations
  rw [hrun]
  exact Queue.quiet_run _ hops

theorem Sound.happened {c c' : Course} (h : c.Sound) (hhappened : Happened c c') : c'.Sound := by
  have hquiet := hhappened.quiet
  refine ⟨hhappened.up h.up, ?_, hhappened.supplied h.supplied, ?_, ?_, ?_⟩
  · obtain ⟨ops, hrun, -⟩ := hhappened.operations
    obtain ⟨hqueue, htraffic⟩ := Prod.mk.inj hrun
    rw [hqueue, htraffic]
    exact h.agrees.run ops
  · rw [hhappened.drained, h.drained]
    exact congrArg List.length hquiet.handed.symm
  · have hdraining := h.draining
    unfold Draining at hdraining ⊢
    rw [hhappened.drain, hhappened.drained]
    cases hdrain : c.daemon.drain with
    | unused =>
        rw [hdrain] at hdraining
        exact hdraining
    | running taken =>
        rw [hdrain] at hdraining
        exact ⟨hdraining.1, hquiet.closed.trans hdraining.2⟩
    | ended =>
        rw [hdrain] at hdraining
        exact hquiet.empty hdraining
  · have hsettled := h.settled
    unfold Settled at hsettled ⊢
    rw [hhappened.stage, hhappened.drain, hhappened.uptime, hhappened.drained]
    exact hsettled

/-! ## The drain task -/

theorem settled_of_ne (h : ∀ stopped result, c.stage ≠ .finished stopped result) : c.Settled := by
  unfold Settled
  split
  · next stopped result hstage => exact absurd hstage (h stopped result)
  · trivial

theorem Sound.ended_of_finished (h : c.Sound) {stopped : Except Fault Unit} {result : Except DaemonError Nat}
    (hstage : c.stage = .finished stopped result) : c.daemon.drain = .ended ∧ c.daemon.uptime = false ∧
      result = (stopped.mapError DaemonError.stop).map fun _ => c.drained := by
  have hsettled := h.settled
  rw [Settled, hstage] at hsettled
  exact hsettled

theorem Sound.stage_ne (h : c.Sound) {taken : Nat} (hdrain : c.daemon.drain = .running taken)
    (stopped : Except Fault Unit) (result : Except DaemonError Nat) : c.stage ≠ .finished stopped result := by
  intro hstage
  have hended := (h.ended_of_finished hstage).1
  rw [hdrain] at hended
  cases hended

theorem Sound.open_of_running (h : c.Sound) {taken : Nat} (hdrain : c.daemon.drain = .running taken) :
    taken = c.drained ∧ c.queue.closed = false := by
  have hdraining := h.draining
  rw [Draining, hdrain] at hdraining
  exact hdraining

theorem Sound.empty_of_ended (h : c.Sound) (hdrain : c.daemon.drain = .ended) :
    c.queue.Shut ∧ c.queue.buffered = [] := by
  have hdraining := h.draining
  rw [Draining, hdrain] at hdraining
  exact hdraining

theorem Sound.takeBatch (h : c.Sound) : c.takeBatch.Sound := by
  unfold Course.takeBatch
  split
  · next taken queue batch hdrain hbatch =>
      obtain ⟨rfl, hopen⟩ := h.open_of_running hdrain
      -- The service has a producer of its own: no batch is empty before the drain task itself closes the queue.
      rcases Queue.recvBatch_of_open hopen (Nat.zero_lt_of_lt h.supplied) (show 0 < batchSize by decide)
        with ⟨-, hpending⟩ | ⟨hne, hready⟩
      · rw [hpending] at hbatch
        cases hbatch
      · have hagrees := h.agrees.perform (.recvBatch batchSize)
        have hkeeps := c.queue.keepsPlaces_recvBatch batchSize
        have hhanded : (c.traffic.note c.queue (.recvBatch batchSize)).handed = c.traffic.handed ++ batch := by
          show c.traffic.handed ++ Queue.polled id (c.queue.recvBatch batchSize).2 = _
          rw [hbatch]
          rfl
        have hqueue : c.queue.apply (.recvBatch batchSize) = queue := congrArg Prod.fst hbatch
        rw [hbatch] at hkeeps hready
        cases hready
        rw [List.isEmpty_eq_false_iff.mpr hne]
        refine ⟨⟨h.up.listener, fun hstage => ⟨(h.up.running hstage).1, nofun⟩⟩, ?_, ?_, ?_,
          ⟨rfl, hkeeps.closed.trans hopen⟩, settled_of_ne (h.stage_ne hdrain)⟩
        · exact hqueue ▸ hagrees
        · exact Nat.lt_of_lt_of_eq h.supplied hkeeps.producers.symm
        · rw [hhanded, List.length_append, ← h.drained]
  · exact h

/-- At its end the drain task closes the queue and takes what it still holds. -/
theorem finishDrain_of_running {d : Daemon} {taken : Nat} (h : d.drain = .running taken) :
    let q := d.service.intake.queue.close
    d.finishDrain.1.service = { d.service with intake.queue := (q.drain q.length).1 } ∧
      d.finishDrain.1.drain = .ended ∧ d.finishDrain.2 = taken + q.length := by
  have hlength := congrArg List.length (Queue.drain_length d.service.intake.queue.close).1
  unfold Daemon.finishDrain
  rw [h]
  simp only
  split
  · exact ⟨rfl, rfl, congrArg (taken + ·) hlength⟩
  · exact ⟨rfl, rfl, congrArg (taken + ·) hlength⟩

theorem Sound.finishDrain (h : c.Sound) : c.finishDrain.Sound := by
  unfold Course.finishDrain
  split
  · next stopped taken hstage hdrain =>
      obtain ⟨hservice, hended, hdrained⟩ := finishDrain_of_running hdrain
      obtain ⟨htaken, -⟩ := h.open_of_running hdrain
      obtain ⟨hgiven, hempty⟩ := c.queue.close.drain_length
      have hqueue : c.daemon.finishDrain.1.service.intake.queue = (c.queue.close.drain c.queue.close.length).1 :=
        congrArg (·.intake.queue) hservice
      have hworkers : c.daemon.finishDrain.1.service.intake.workers = c.daemon.service.intake.workers :=
        congrArg (·.intake.workers) hservice
      have hclosed : c.queue.close.Agrees c.traffic := by
        have hclose := h.agrees.perform .close
        simpa only [Queue.perform, Queue.apply, Queue.Traffic.note, Queue.given, List.append_nil] using hclose
      refine ⟨⟨?_, fun hrunning => ?_⟩, ?_, ?_, ?_, ?_, settled_of_ne fun stopped result hfinished => ?_⟩
      · exact (congrArg (·.listener.isSome) hservice).trans h.up.listener
      · cases hstage.symm.trans hrunning
      · show Queue.Agrees c.daemon.finishDrain.1.service.intake.queue _
        rw [hqueue]
        exact hclosed.perform (.drain c.queue.close.length)
      · unfold Site.Supplied
        rw [hqueue, hworkers, (c.queue.close.keepsPlaces_drain _).producers]
        exact h.supplied
      · show c.daemon.finishDrain.2 = (c.traffic.handed ++ (c.queue.close.drain c.queue.close.length).2).length
        rw [hdrained, hgiven, List.length_append, ← h.drained, htaken]
        rfl
      · unfold Draining queue
        rw [hended, hqueue]
        exact ⟨((c.queue.close.flow_drain _).shut ⟨rfl, rfl⟩).1, hempty⟩
      · rw [hstage] at hfinished
        cases hfinished
  · exact h

/-! ## Shutdown -/

/-- Shutdown takes a step that concerns neither the queue nor the drain task. -/
theorem Sound.of_same {c' : Course} (h : c.Sound) (hup : c'.Up) (hqueue : c'.queue = c.queue)
    (hworkers : c'.daemon.service.intake.workers = c.daemon.service.intake.workers) (htraffic : c'.traffic = c.traffic)
    (hdrained : c'.drained = c.drained) (hdrain : c'.daemon.drain = c.daemon.drain) (hsettled : c'.Settled) :
    c'.Sound := by
  refine ⟨hup, ?_, ?_, ?_, ?_, hsettled⟩
  · rw [hqueue, htraffic]
    exact h.agrees
  · show _ < c'.queue.producers
    rw [hqueue, hworkers]
    exact h.supplied
  · rw [hdrained, htraffic]
    exact h.drained
  · unfold Draining
    rw [hdrain, hqueue, hdrained]
    exact h.draining

theorem Sound.breakDown (h : c.Sound) (message : String) : (c.breakDown message).Sound := by
  unfold Course.breakDown
  split
  · exact h
  · exact h.of_same ⟨h.up.listener, h.up.running⟩ rfl rfl rfl rfl rfl h.settled

theorem Sound.beginShutdown (h : c.Sound) : c.beginShutdown.Sound := by
  unfold Course.beginShutdown
  split
  · next s _ hs =>
      obtain ⟨l, -, rfl⟩ := Option.map_eq_some_iff.mp hs
      exact h.of_same ⟨rfl, nofun⟩ rfl rfl rfl rfl rfl trivial
  · exact h

theorem Sound.join (h : c.Sound) : c.join.Sound := by
  unfold Course.join
  split
  · exact h.of_same ⟨h.up.listener, nofun⟩ rfl rfl rfl rfl rfl trivial
  · exact h

theorem Sound.finishUptime (h : c.Sound) : c.finishUptime.Sound := by
  unfold Course.finishUptime
  split
  · next stopped hstage =>
      have hne : ∀ stopped result, c.stage ≠ .finished stopped result :=
        fun _ _ hfinished => nomatch hstage.symm.trans hfinished
      unfold Daemon.finishUptime
      split
      · exact h.of_same ⟨h.up.listener, h.up.running⟩ rfl rfl rfl rfl rfl (settled_of_ne hne)
      · exact h
  · exact h

theorem Sound.finish (h : c.Sound) : c.finish.Sound := by
  unfold Course.finish
  split
  · next stopped hstage hdrain huptime =>
      cases stopped with
      | error e => exact h.of_same ⟨h.up.listener, nofun⟩ rfl rfl rfl rfl rfl ⟨hdrain, huptime, rfl⟩
      | ok _ => exact h.of_same ⟨h.up.listener, nofun⟩ rfl rfl rfl rfl rfl ⟨hdrain, huptime, rfl⟩
  · exact h

/-! ## Runs -/

theorem of_build {o : ServiceOptions} {service : Service} (h : Service.build o = .ok service) :
    service = { options := o, intake := { queue := .start o.queue } } := by
  unfold Service.build at h
  cases hlistener : o.listener.validate with
  | error e =>
      rw [hlistener] at h
      cases h
  | ok _ =>
      cases hqueue : o.queue.validate with
      | error e =>
          rw [hlistener, hqueue] at h
          cases h
      | ok _ =>
          rw [hlistener, hqueue] at h
          cases h
          rfl

/-- A daemon that has not been started: its queue is new, and the consumer waits. -/
def Unstarted (d : Daemon) : Prop :=
  d.drain = .unused ∧ ∃ o : ServiceOptions, d.service = { options := o, intake := { queue := .start o.queue } }

theorem unstarted_of_ofService {s : Settings} {lines : List Line} {d : Daemon} (h : (ofService s lines).2 = .ok d) :
    Unstarted d := by
  unfold ofService at h
  split at h
  · cases h
  · next service hservice =>
      cases h
      cases ho : ServiceOptions.ofSettings s with
      | error e =>
          rw [ho] at hservice
          cases hservice
      | ok o =>
          rw [ho] at hservice
          exact ⟨rfl, o, of_build hservice⟩

theorem unstarted_of_build {host : Host} {s : Settings} {d : Daemon} (h : (build host s).2 = .ok d) :
    Unstarted d := by
  unfold build at h
  split at h
  · cases h
  · split at h
    · split at h
      · cases h
      · exact unstarted_of_ofService h
    · exact unstarted_of_ofService h

theorem started_of_start {host : Host} {d : Daemon} (h : Unstarted d) (hstarted : (d.start host).2 = .ok ()) :
    ∃ address, (d.start host).1.service = d.service.begin address ∧ (d.start host).1.drain = .running 0 := by
  unfold Daemon.start at hstarted ⊢
  simp only [h.1] at hstarted ⊢
  rcases d.service.start_cases ((d.hostWithExporter host).listen d.service.options.listener.bindAddress
    d.service.options.listener.port) with ⟨e, hfailed⟩ | ⟨-, address, -, hbegun⟩
  · rw [hfailed] at hstarted
    cases hstarted
  · rw [hbegun]
    exact ⟨address, rfl, rfl⟩

theorem sound_start {host : Host} {d : Daemon} (h : Unstarted d) (hstarted : (d.start host).2 = .ok ()) :
    Sound { daemon := (d.start host).1 } := by
  obtain ⟨address, hbegun, hdrain⟩ := started_of_start h hstarted
  obtain ⟨-, o, hservice⟩ := h
  rw [hservice] at hbegun
  refine ⟨⟨?_, fun _ => ⟨?_, ?_⟩⟩, ?_, ?_, rfl, ?_, trivial⟩
  · show (d.start host).1.service.listener.isSome = true
    rw [hbegun]
    rfl
  · show (d.start host).1.service.state = .running
    rw [hbegun]
    rfl
  · show (d.start host).1.drain ≠ .ended
    rw [hdrain]
    nofun
  · show Queue.Agrees (d.start host).1.service.intake.queue {}
    rw [hbegun]
    exact Queue.agrees_start o.queue
  · show Site.Supplied (d.start host).1.service.intake
    rw [hbegun]
    exact Nat.zero_lt_one
  · unfold Draining queue
    rw [hdrain, hbegun]
    exact ⟨rfl, rfl⟩

/-- Everything can happen at the site, but for the listener's task when that has broken down. -/
theorem step_event (c : Course) (e : Site.Event) : c.step (.event e) = c.happen e ∨ c.step (.event e) = c := by
  cases e with
  | listener allowance =>
      simp only [Course.step]
      split
      · exact Or.inr rfl
      · exact Or.inl rfl
  | _ => exact Or.inl rfl

theorem Sound.step (h : c.Sound) (m : Move) : (c.step m).Sound := by
  cases m with
  | event e =>
      rcases c.step_event e with hstep | hstep
      · rw [hstep]
        exact h.happened (c.happened_happen e)
      · rw [hstep]
        exact h
  | breakDown message => exact h.breakDown message
  | batch => exact h.takeBatch
  | shutdown => exact h.beginShutdown
  | join => exact h.join
  | finishDrain => exact h.finishDrain
  | finishUptime => exact h.finishUptime
  | finish => exact h.finish

theorem Sound.run (h : c.Sound) (moves : List Move) : (c.run moves).Sound := by
  induction moves generalizing c with
  | nil => exact h
  | cons m moves ih => exact ih (h.step m)

end Course
end Daemon
end LogIntake
