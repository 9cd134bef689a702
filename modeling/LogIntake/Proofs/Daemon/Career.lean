import LogIntake.Proofs.Daemon.Execution

/-!
# Careers of daemons

A daemon may be started and shut down again and again. Before its first start that succeeds its consumer waits; from
that start on the drain task has the consumer, and what comes into the queue is drained (`Course.Sound`). With the
shutdown the consumer is gone and the queue is closed. A later start does not bring them back, although it succeeds
(`Course.Spent`).
-/

namespace LogIntake

namespace Daemon

variable {d : Daemon} {host : Host}

/-! ## Calls -/

theorem start_cases (d : Daemon) (host : Host) :
    (∃ e, d.start host = (d, .error e)) ∨
      ∃ d', d.start host = (d', .ok ()) ∧ d.service.state ≠ .running ∧
        (∃ address, d'.service = d.service.begin address) ∧ (d.drain = .ended → d'.drain = .ended) := by
  unfold Daemon.start
  rcases d.service.start_cases ((d.hostWithExporter host).listen d.service.options.listener.bindAddress
    d.service.options.listener.port) with ⟨e, hfailed⟩ | ⟨hstate, address, -, hbegun⟩
  · exact Or.inl ⟨.start e, by simp only [hfailed]⟩
  · simp only [hbegun]
    exact Or.inr ⟨_, rfl, hstate, ⟨address, rfl⟩, fun hended => by rw [hended]⟩

/-- To shut down a daemon whose service does not run has no effect on its service and its consumer. -/
theorem shutdown_of_idle (hstate : d.service.state ≠ .running) (hdrain : ∀ taken, d.drain ≠ .running taken) :
    d.shutdown.1.service = d.service ∧ d.shutdown.1.drain = d.drain ∧ d.shutdown.1.uptime = false := by
  have hstop : (d.write .info "stopping ingest service").service.stop
      = (d.service, .error (.lifecycle .notRunning)) := by
    show d.service.stop = _
    unfold Service.stop
    split
    · next hrunning _ => exact absurd hrunning hstate
    · rfl
  have hfinish (log : List Line) : finishDrain { d with log } = ({ d with log }, 0) := by
    unfold finishDrain
    split
    · next taken hrunning => exact absurd hrunning (hdrain taken)
    · rfl
  obtain ⟨huptime, hsame⟩ := Course.uptime_finishUptime (d.write .info "stopping ingest service")
  have hservice : (d.write .info "stopping ingest service").finishUptime.service = d.service := by
    unfold finishUptime
    split <;> rfl
  unfold shutdown
  simp only [hstop]
  rw [show finishDrain { d.write .info "stopping ingest service" with service := d.service }
    = (d.write .info "stopping ingest service", 0) from hfinish _]
  exact ⟨hservice, hsame, huptime⟩

namespace Course

variable {c : Course}

/-- The service runs until shutdown begins. -/
def Paired (c : Course) : Prop :=
  c.daemon.service.state = if c.stage = .running then .running else .stopped

theorem Paired.of_same {c' : Course} (h : c.Paired) (hstate : c'.daemon.service.state = c.daemon.service.state)
    (hstage : c'.stage = .running ↔ c.stage = .running) : c'.Paired := by
  unfold Paired at h ⊢
  rw [hstate, h]
  simp only [hstage]

theorem Paired.happen (h : c.Paired) (e : Site.Event) : (c.happen e).Paired := by
  unfold Course.happen
  split
  · exact h.of_same rfl .rfl
  · exact h

theorem Paired.step (h : c.Paired) (m : Move) : (c.step m).Paired := by
  cases m with
  | event e =>
      rcases c.step_event e with hstep | hstep
      · rw [hstep]
        exact h.happen e
      · rw [hstep]
        exact h
  | breakDown message =>
      simp only [Course.step, Course.breakDown]
      split
      · exact h
      · exact h.of_same rfl .rfl
  | batch =>
      simp only [Course.step, Course.takeBatch]
      split
      · exact h.of_same rfl .rfl
      · exact h
  | shutdown =>
      simp only [Course.step, Course.beginShutdown]
      split
      · exact rfl
      · exact h
  | join =>
      simp only [Course.step, Course.join]
      split
      · next outcome hstage _ => exact h.of_same rfl (by simp [hstage])
      · exact h
  | finishDrain =>
      simp only [Course.step, Course.finishDrain]
      split
      · next stopped taken hstage hdrain =>
          exact h.of_same (congrArg (·.state) (finishDrain_of_running hdrain).1) .rfl
      · exact h
  | finishUptime =>
      simp only [Course.step, Course.finishUptime]
      split
      · refine h.of_same ?_ .rfl
        unfold Daemon.finishUptime
        split <;> rfl
      · exact h
  | finish =>
      simp only [Course.step, Course.finish]
      split
      · next stopped hstage _ _ => cases stopped <;> exact h.of_same rfl (by simp [conclude, hstage])
      · exact h

/-! ## Courses without the consumer -/

/-- The drain task has ended, and the queue is closed and empty. Shutdown has nothing to count. -/
structure Spent (c : Course) : Prop where
  agrees : c.queue.Agrees c.traffic
  drain : c.daemon.drain = .ended
  empty : c.queue.Shut ∧ c.queue.buffered = []
  drained : c.drained = 0
  settled : c.Settled

theorem Spent.of_same {c' : Course} (h : c.Spent) (hqueue : c'.queue = c.queue) (htraffic : c'.traffic = c.traffic)
    (hdrained : c'.drained = c.drained) (hdrain : c'.daemon.drain = c.daemon.drain) (hsettled : c'.Settled) :
    c'.Spent := by
  refine ⟨?_, hdrain.trans h.drain, ?_, hdrained.trans h.drained, hsettled⟩
  · rw [hqueue, htraffic]
    exact h.agrees
  · rw [hqueue]
    exact h.empty

theorem Spent.happen (h : c.Spent) (e : Site.Event) : (c.happen e).Spent := by
  have hhappened := c.happened_happen e
  obtain ⟨ops, hrun, -⟩ := hhappened.operations
  obtain ⟨hqueue, htraffic⟩ := Prod.mk.inj hrun
  refine ⟨?_, hhappened.drain.trans h.drain, hhappened.quiet.empty h.empty, hhappened.drained.trans h.drained, ?_⟩
  · rw [hqueue, htraffic]
    exact h.agrees.run ops
  · have hsettled := h.settled
    unfold Settled at hsettled ⊢
    rw [hhappened.stage, hhappened.drain, hhappened.uptime, hhappened.drained]
    exact hsettled

theorem Spent.step (h : c.Spent) (m : Move) : (c.step m).Spent := by
  cases m with
  | event e =>
      rcases c.step_event e with hstep | hstep
      · rw [hstep]
        exact h.happen e
      · rw [hstep]
        exact h
  | breakDown message =>
      simp only [Course.step, Course.breakDown]
      split
      · exact h
      · exact h.of_same rfl rfl rfl rfl h.settled
  | batch =>
      have hsame : c.takeBatch = c := by simp only [Course.takeBatch, h.drain]
      show c.takeBatch.Spent
      rw [hsame]
      exact h
  | shutdown =>
      simp only [Course.step, Course.beginShutdown]
      split
      · next s _ hs =>
          obtain ⟨l, -, rfl⟩ := Option.map_eq_some_iff.mp hs
          exact h.of_same rfl rfl rfl rfl trivial
      · exact h
  | join =>
      simp only [Course.step, Course.join]
      split
      · exact h.of_same rfl rfl rfl rfl trivial
      · exact h
  | finishDrain =>
      have hsame : c.finishDrain = c := by
        unfold Course.finishDrain
        split
        · next stopped taken _ hdrain => cases h.drain.symm.trans hdrain
        · rfl
      show c.finishDrain.Spent
      rw [hsame]
      exact h
  | finishUptime =>
      simp only [Course.step, Course.finishUptime]
      split
      · next stopped hstage =>
          unfold Daemon.finishUptime
          split
          · exact h.of_same rfl rfl rfl rfl (settled_of_ne (by simp [hstage]))
          · exact h
      · exact h
  | finish =>
      simp only [Course.step, Course.finish]
      split
      · next stopped hstage hdrain huptime =>
          cases stopped with
          | error e => exact h.of_same rfl rfl rfl rfl ⟨hdrain, huptime, rfl⟩
          | ok _ => exact h.of_same rfl rfl rfl rfl ⟨hdrain, huptime, rfl⟩
      · exact h

/-- The course that a start begins when there has been one before; the traffic of the queue goes on. -/
def again (c : Course) (d : Daemon) : Course :=
  { c with daemon := d, stage := .running, broken := none, drained := 0 }

/-- A start that succeeds after the end of the drain task does not bring the consumer back. -/
theorem spent_again (hagrees : c.queue.Agrees c.traffic)
    (hempty : c.queue.Shut ∧ c.queue.buffered = []) {address : SocketAddress}
    (hbegun : d.service = c.daemon.service.begin address) (hended : d.drain = .ended) : (c.again d).Spent := by
  have hqueue : (c.again d).queue = c.queue := congrArg (·.intake.queue) hbegun
  refine ⟨?_, hended, ?_, rfl, trivial⟩
  · rw [hqueue]
    exact hagrees
  · rw [hqueue]
    exact hempty

theorem Paired.state_ne (h : c.Paired) (hstage : c.stage ≠ .running) : c.daemon.service.state ≠ .running := by
  rw [h, if_neg hstage]
  exact Service.State.noConfusion

theorem paired_of_begin {service : Service} {address : SocketAddress} (hstage : c.stage = .running)
    (hbegun : c.daemon.service = service.begin address) : c.Paired := by
  rw [Paired, hbegun, if_pos hstage]
  rfl

section

variable {called : Daemon} (hservice : called.service = c.daemon.service) (hdrain : called.drain = c.daemon.drain)
  (huptime : called.uptime = false)

include hdrain huptime

/-- A call that only ends the task that updates the uptime leaves what the shutdown before has left. -/
theorem settled_of_call (h : c.Settled) : ({ c with daemon := called } : Course).Settled := by
  cases hstage : c.stage with
  | finished stopped result =>
      rw [Settled, hstage] at h
      exact ⟨hdrain.trans h.1, huptime, h.2.2⟩
  | _ => exact settled_of_ne (by simp)

include hservice

theorem Sound.of_call (h : c.Sound) (hstage : c.stage ≠ .running) : ({ c with daemon := called } : Course).Sound :=
  h.of_same ⟨(congrArg (·.listener.isSome) hservice).trans h.up.listener, fun hrunning => absurd hrunning hstage⟩
    (congrArg (·.intake.queue) hservice) (congrArg (·.intake.workers) hservice) rfl rfl hdrain
    (settled_of_call hdrain huptime h.settled)

theorem Spent.of_call (h : c.Spent) : ({ c with daemon := called } : Course).Spent :=
  h.of_same (congrArg (·.intake.queue) hservice) rfl rfl hdrain (settled_of_call hdrain huptime h.settled)

end

end Course

/-! ## Careers -/

/-- How a daemon fares between its building and its end. -/
inductive Career where
  /-- No start has succeeded. -/
  | idle (d : Daemon)
  /-- So many starts have succeeded, and the latest has begun this course. -/
  | begun (starts : Nat) (c : Course)
  deriving DecidableEq, Repr

namespace Career

inductive Move where
  | start (host : Host)
  | shutdown
  /-- A move of the course that is under way. -/
  | goesOn (m : Course.Move)
  deriving DecidableEq, Repr

/-- A start while shutdown is under way has to wait, for calls come one after the other. -/
def start : Career → Host → Career
  | .idle d, host =>
    match d.start host with
    | (d, .ok ()) => .begun 1 { daemon := d }
    | (d, .error _) => .idle d
  | .begun starts c, host =>
    match c.stage with
    | .running | .finished _ _ =>
      match c.daemon.start host with
      | (d, .ok ()) => .begun (starts + 1) (c.again d)
      | (d, .error _) => .begun starts { c with daemon := d }
    | _ => .begun starts c

def shutdown : Career → Career
  | .idle d => .idle d.shutdown.1
  | .begun starts c =>
    match c.stage with
    | .finished _ _ => .begun starts { c with daemon := c.daemon.shutdown.1 }
    | _ => .begun starts (c.step .shutdown)

def goOn (m : Course.Move) : Career → Career
  | .idle d => .idle d
  | .begun starts c => .begun starts (c.step m)

def step (k : Career) : Move → Career
  | .start host => k.start host
  | .shutdown => k.shutdown
  | .goesOn m => k.goOn m

def run (k : Career) (moves : List Move) : Career :=
  moves.foldl step k

def starts : Career → Nat
  | .idle _ => 0
  | .begun starts _ => starts

def course? : Career → Option Course
  | .idle _ => none
  | .begun _ c => some c

theorem eq_begun {k : Career} {c : Course} (h : k.course? = some c) : k = .begun k.starts c := by
  cases k with
  | idle d => cases h
  | begun starts c' => exact congrArg (begun starts) (Option.some.inj h)

/-- Before the first start the consumer waits; in the first course it is with the drain task, or has been; in the
later ones it is gone. -/
def Fits : Career → Prop
  | .idle d => Course.Unstarted d
  | .begun starts c => c.Paired ∧ (starts = 1 ∧ c.Sound ∨ 1 < starts ∧ c.Spent)

variable {k : Career}

theorem fits_start (h : k.Fits) (host : Host) : (k.start host).Fits := by
  cases k with
  | idle d =>
      rcases d.start_cases host with ⟨e, hfailed⟩ | ⟨d', hstarted, -, ⟨address, hbegun⟩, -⟩
      · simp only [start, hfailed]
        exact h
      · have hsound : Course.Sound { daemon := (d.start host).1 } := Course.sound_start h (by rw [hstarted])
        rw [hstarted] at hsound
        simp only [start, hstarted]
        exact ⟨Course.paired_of_begin rfl hbegun, Or.inl ⟨rfl, hsound⟩⟩
  | begun starts c =>
      obtain ⟨hpaired, hcourse⟩ := h
      rcases c.daemon.start_cases host with ⟨e, hfailed⟩ | ⟨d', hstarted, hstate, ⟨address, hbegun⟩, hended⟩
      · have hsame : (begun starts c).start host = .begun starts c := by
          simp only [start, hfailed]
          split <;> rfl
        rw [hsame]
        exact ⟨hpaired, hcourse⟩
      · simp only [start, hstarted]
        split
        · next hstage => exact absurd (by rw [hpaired, if_pos hstage]) hstate
        · next stopped result hstage =>
            refine ⟨Course.paired_of_begin rfl hbegun, Or.inr ?_⟩
            rcases hcourse with ⟨rfl, hsound⟩ | ⟨hlt, hspent⟩
            · have hdrain := (hsound.ended_of_finished hstage).1
              exact ⟨by omega, Course.spent_again hsound.agrees (hsound.empty_of_ended hdrain) hbegun (hended hdrain)⟩
            · exact ⟨by omega, Course.spent_again hspent.agrees hspent.empty hbegun (hended hspent.drain)⟩
        · exact ⟨hpaired, hcourse⟩

theorem fits_shutdown (h : k.Fits) : k.shutdown.Fits := by
  cases k with
  | idle d =>
      obtain ⟨hdrain, o, hservice⟩ := h
      obtain ⟨hsame, hstill, -⟩ := shutdown_of_idle (d := d) (by rw [hservice]; exact Service.State.noConfusion)
        (by rw [hdrain]; exact fun _ => Drain.noConfusion)
      exact ⟨hstill.trans hdrain, o, hsame.trans hservice⟩
  | begun starts c =>
      obtain ⟨hpaired, hcourse⟩ := h
      simp only [shutdown]
      split
      · next stopped result hstage =>
          have hstopped : c.stage ≠ .running := by simp [hstage]
          have hdrain : c.daemon.drain = .ended :=
            hcourse.elim (fun hsound => (hsound.2.ended_of_finished hstage).1) (·.2.drain)
          obtain ⟨hservice, hstill, huptime⟩ := shutdown_of_idle (hpaired.state_ne hstopped) (by simp [hdrain])
          exact ⟨hpaired.of_same (congrArg (·.state) hservice) .rfl,
            hcourse.imp (.imp_right (·.of_call hservice hstill huptime hstopped))
              (.imp_right (·.of_call hservice hstill huptime))⟩
      · exact ⟨hpaired.step .shutdown, hcourse.imp (.imp_right (·.step .shutdown)) (.imp_right (·.step .shutdown))⟩

theorem fits_step (h : k.Fits) (m : Move) : (k.step m).Fits := by
  cases m with
  | start host => exact fits_start h host
  | shutdown => exact fits_shutdown h
  | goesOn m =>
      cases k with
      | idle d => exact h
      | begun starts c =>
          obtain ⟨hpaired, hcourse⟩ := h
          exact ⟨hpaired.step m, hcourse.imp (.imp_right (·.step m)) (.imp_right (·.step m))⟩

theorem fits_run (h : k.Fits) (moves : List Move) : (k.run moves).Fits := by
  induction moves generalizing k with
  | nil => exact h
  | cons m moves ih => exact ih (fits_step h m)

/-- A daemon has been built, and it is started and shut down at will; a start may fail. Before a start has succeeded the
consumer waits. While the first course goes on the drain task has an open queue, shutdown can finish, and when it has,
the drain task has been handed every record whose push has succeeded, and they are counted. In every later course,
although its start has succeeded as well, there is no drain task, each push finds the queue closed, and shutdown has
nothing to count. -/
theorem consumes_until_restarted {host : Host} {s : Settings} {d : Daemon} (hbuilt : (build host s).2 = .ok d)
    (moves : List Move) :
    let k := (idle d).run moves
    (∀ d', k = .idle d' → d'.drain = .unused ∧ d'.service.intake.queue.closed = false) ∧
      ∀ starts c, k = .begun starts c → 0 < starts ∧
        (starts = 1 →
          (c.stage = .running →
            (∃ taken, c.daemon.drain = .running taken) ∧ c.queue.closed = false ∧
              ∃ more stopped result, (c.run more).stage = .finished stopped result) ∧
          ∀ stopped result, c.stage = .finished stopped result →
            c.traffic.handed = c.traffic.entered ∧
              result = (stopped.mapError DaemonError.stop).map fun _ => (c.traffic.ended.map (·.2)).count .taken) ∧
        (1 < starts →
          c.daemon.drain = .ended ∧ c.queue.closed = true ∧
            (∀ now r, (c.queue.push now r).2 = .done (.failed .closed)) ∧
            ∀ stopped result, c.stage = .finished stopped result →
              result = (stopped.mapError DaemonError.stop).map fun _ => 0) := by
  intro k
  have hfits : k.Fits := fits_run (k := .idle d) (Course.unstarted_of_build hbuilt) moves
  refine ⟨fun d' hidle => ?_, fun starts c hbegun => ?_⟩
  · rw [hidle] at hfits
    obtain ⟨hdrain, o, hservice⟩ := hfits
    exact ⟨hdrain, by rw [hservice]; rfl⟩
  rw [hbegun] at hfits
  obtain ⟨hpaired, hcourse⟩ := hfits
  refine ⟨by omega, fun hfirst => ?_, fun hlater => ?_⟩
  · obtain ⟨-, h⟩ := hcourse.resolve_right (by omega)
    refine ⟨fun hrunning => ?_, fun stopped result hfinished => ?_⟩
    · obtain ⟨taken, hdrain⟩ := h.drain_of_running hrunning
      exact ⟨⟨taken, hdrain⟩, (h.open_of_running hdrain).2, h.exists_finished hrunning⟩
    · obtain ⟨hall, -⟩ := h.handed_of_finished hfinished
      refine ⟨hall, ?_⟩
      rw [(h.ended_of_finished hfinished).2.2, h.drained, hall, h.agrees.length_entered]
  · obtain ⟨-, h⟩ := hcourse.resolve_left (by omega)
    refine ⟨h.drain, h.empty.1.closed, fun now r => Queue.push_of_closed h.empty.1.closed now r,
      fun stopped result hfinished => ?_⟩
    have hsettled := h.settled
    rw [Course.Settled, hfinished] at hsettled
    rw [hsettled.2.2, h.drained]

/-- A start finds the port taken, shutdown is called in vain, and the next start succeeds. -/
def startedAtLast : List Move :=
  [.start { listening := [.v4 ⟨0, 0, 0, 0⟩ 5140] }, .shutdown, .start {}]

/-- A worker comes to push a record. -/
def oneRecord : List Course.Move :=
  let sent : Bytes := [60, 114, 101, 99, 62, 65, 60, 47, 114, 101, 99, 62]
  [.event (.arrive ⟨⟨0⟩, .connection (.v4 ⟨192, 0, 2, 10⟩ 40000) [.data sent]⟩), .event (.listener 1),
    .event (.listener 1), .event (.worker 1 1), .event (.worker 1 1), .event (.worker 1 1)]

def wholeShutdown : List Course.Move :=
  [.shutdown, .event (.listener 1), .event (.listener 1), .event (.worker 1 1), .event (.listener 1), .join,
    .finishDrain, .finishUptime, .finish]

theorem consumes_until_restarted_crowded :
    let k := (idle Course.crowded).run (startedAtLast ++ (oneRecord ++ wholeShutdown).map .goesOn)
    (build {} Course.crowded.settings).2 = .ok Course.crowded ∧
      ∃ c, k = .begun 1 c ∧ c.stage = .finished (.ok ()) (.ok 1) ∧ c.traffic.handed.map (·.payload) = [[65]] ∧
        c.traffic.entered = c.traffic.handed := by
  intro k
  have hbuilt : (build {} Course.crowded.settings).2 = .ok Course.crowded := by decide +kernel
  have hcourse : k.course?.map (fun c => (c.stage, c.traffic.handed.map (·.payload)))
      = some (.finished (.ok ()) (.ok 1), [[65]]) := by decide +kernel
  have hstarts : k.starts = 1 := by decide +kernel
  obtain ⟨c, hc, hends⟩ := Option.map_eq_some_iff.mp hcourse
  obtain ⟨hstage, hhanded⟩ := Prod.mk.inj hends
  have hbegun : k = .begun 1 c := hstarts ▸ eq_begun hc
  obtain ⟨-, hcourses⟩ := consumes_until_restarted hbuilt (startedAtLast ++ (oneRecord ++ wholeShutdown).map .goesOn)
  obtain ⟨-, hfirst, -⟩ := hcourses 1 c hbegun
  exact ⟨hbuilt, c, hbegun, hstage, hhanded, ((hfirst rfl).2 _ _ hstage).1.symm⟩

/-- A daemon is started, shut down and started again. It fares well then, but there is no drain task, a record that
comes is refused, and the next shutdown counts none. -/
theorem restarted_without_consumer :
    let k := (idle Course.crowded).run (.start {} :: (wholeShutdown.map .goesOn ++ [.start {}]))
    (build {} Course.crowded.settings).2 = .ok Course.crowded ∧
      ∃ c, k = .begun 2 c ∧ c.stage = .running ∧ c.daemon.service.state = .running ∧ c.daemon.health = .healthy ∧
        c.daemon.drain = .ended ∧ c.queue.closed = true ∧
        (c.run oneRecord).stage = .running ∧ (c.run oneRecord).traffic.ended = [(0, .failed .closed)] ∧
        (c.run (oneRecord ++ wholeShutdown)).stage = .finished (.ok ()) (.ok 0) := by
  intro k
  have hcourse : k.course?.any (fun c => decide (c.stage = .running ∧ c.daemon.service.state = .running ∧
      c.daemon.health = .healthy ∧ c.daemon.drain = .ended ∧ c.queue.closed = true ∧
      (c.run oneRecord).stage = .running ∧ (c.run oneRecord).traffic.ended = [(0, .failed .closed)] ∧
      (c.run (oneRecord ++ wholeShutdown)).stage = .finished (.ok ()) (.ok 0))) = true := by decide +kernel
  have hstarts : k.starts = 2 := by decide +kernel
  obtain ⟨c, hc, hfares⟩ := (Option.any_eq_true _ _).mp hcourse
  exact ⟨by decide +kernel, c, hstarts ▸ eq_begun hc, of_decide_eq_true hfares⟩

end Career

end Daemon
end LogIntake
