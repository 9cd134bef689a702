import LogIntake.Proofs.Daemon.Shutdown
import LogIntake.Proofs.Execution

/-!
# What a daemon does is part of its course

A daemon takes a batch, and it shuts down in one go, with an execution of its service. Both are parts of its
course. So shutdown can begin and finish at any time, and what holds at its end holds of what the daemon leaves.
-/

namespace LogIntake

namespace Execution

/-! ## Executions that nothing is planned for -/

theorem plan_settle (x : Execution) (task : Task) (status : Intake.Status) : (x.settle task status).plan = x.plan := by
  cases status with
  | goesOn left => rfl
  | blocked => rfl
  | spent => rfl
  | ended => rfl

theorem plan_endRound (x : Execution) : x.endRound.plan = x.plan := by
  have hfold : ∀ (tasks : List Task) (y : Execution), (tasks.foldl wakeTask y).plan = y.plan := by
    intro tasks
    induction tasks with
    | nil => exact fun y => rfl
    | cons task tasks ih =>
        intro y
        refine (ih _).trans ?_
        cases task with
        | listener => rfl
        | worker connection => rfl
  exact hfold x.spent _

theorem plan_runListener (x : Execution) (left : Nat) (l : Listener) : (x.runListener left l).plan = x.plan := by
  unfold runListener
  simp only
  rw [plan_settle]
  split
  · rfl
  · rfl

theorem plan_settleWorker (x : Execution) (w : Worker) (status : Intake.Status) :
    (match status, x.listener with
      | .ended, some l =>
        let (l, intake) := l.release x.intake
        let x := { x with listener := some l, intake }
        if x.intake.workers.isEmpty then x.wakeListener else x
      | _, _ => x.settle (.worker w.connection) status).plan = x.plan := by
  split
  · simp only
    split
    · rfl
    · rfl
  · exact plan_settle x _ _

theorem plan_runWorker (x : Execution) (left : Nat) (w : Worker) : (x.runWorker left w).plan = x.plan := by
  unfold runWorker
  generalize x.intake.stepWorker w left = result
  obtain ⟨i, status, signalled⟩ := result
  cases signalled with
  | true => exact plan_settleWorker _ w status
  | false => exact plan_settleWorker _ w status

theorem plan_run (x : Execution) (task : Task) (left : Nat) : (x.run task left).plan = x.plan := by
  unfold run
  cases task with
  | listener =>
      cases x.listener with
      | none => rfl
      | some l => exact plan_runListener ..
  | worker connection =>
      show ((x.intake.worker? connection).elim _ ({ x with turn := none }.runWorker left)).plan = x.plan
      cases x.intake.worker? connection with
      | none => rfl
      | some w => exact plan_runWorker ..

theorem plan_jump {x : Execution} (h : x.plan = []) (t : Instant) : (x.jump t).plan = [] := by
  unfold jump
  simp only [h, List.takeWhile_nil, List.map_nil, List.foldl_nil, List.drop_nil]
  split
  · rfl
  · rfl

theorem plan_step {x y : Execution} (h : x.plan = []) (hstep : x.step = some y) : y.plan = [] := by
  unfold step at hstep
  split at hstep
  · cases hstep
  · split at hstep
    · next task left _ =>
        obtain rfl := Option.some.inj hstep
        exact (plan_run x task left).trans h
    · obtain rfl := Option.some.inj hstep
      exact h
    · obtain rfl := Option.some.inj hstep
      exact (plan_endRound x).trans h
    · obtain rfl := Option.some.inj hstep
      exact h
    · split at hstep
      · obtain rfl := Option.some.inj hstep
        exact (plan_endRound x).trans h
      · obtain ⟨t, -, rfl⟩ := Option.map_eq_some_iff.mp hstep
        exact plan_jump h t

end Execution

namespace Site

variable {s : Site} {x y : Execution}

def follow (s : Site) (events : List Event) : Site :=
  events.foldl occur s

theorem follow_append (s : Site) (events more : List Event) :
    s.follow (events ++ more) = (s.follow events).follow more :=
  List.foldl_append ..

/-- When nothing is planned an execution goes on with what happens at the site of itself. -/
theorem Runs.follow (h : s.Runs x) (hplan : x.plan = []) (hstep : x.step = some y) :
    ∃ events, (s.follow events).Runs y := by
  unfold Execution.step at hstep
  split at hstep
  · cases hstep
  · split at hstep
    · next task left _ =>
        obtain rfl := Option.some.inj hstep
        cases task with
        | listener => exact ⟨[.listener left], h.run .listener left⟩
        | worker connection => exact ⟨[.worker connection left], h.run (.worker connection) left⟩
    · obtain rfl := Option.some.inj hstep
      exact ⟨[], h.of_same ⟨rfl, rfl, rfl, rfl⟩⟩
    · obtain rfl := Option.some.inj hstep
      exact ⟨[], h.of_same (Execution.same_endRound x)⟩
    · obtain rfl := Option.some.inj hstep
      exact ⟨[], h.of_same ⟨rfl, rfl, rfl, rfl⟩⟩
    · split at hstep
      · obtain rfl := Option.some.inj hstep
        exact ⟨[], h.of_same (Execution.same_endRound x)⟩
      · obtain ⟨t, -, rfl⟩ := Option.map_eq_some_iff.mp hstep
        obtain ⟨acts, hacts, hjump⟩ := h.jump t
        rw [hplan, List.map_nil, List.prefix_nil] at hacts
        subst hacts
        exact ⟨[.elapse t], hjump⟩

theorem Runs.follow_steps (h : s.Runs x) (hplan : x.plan = []) (fuel : Nat) :
    ∃ events, (s.follow events).Runs (x.steps fuel) := by
  induction fuel generalizing s x with
  | zero => exact ⟨[], h⟩
  | succ fuel ih =>
      unfold Execution.steps
      cases hstep : x.step with
      | none => exact ⟨[], h⟩
      | some y =>
          obtain ⟨events, hevents⟩ := h.follow hplan hstep
          obtain ⟨more, hmore⟩ := ih hevents (Execution.plan_step hplan hstep)
          rw [← follow_append] at hmore
          exact ⟨events ++ more, hmore⟩

theorem Runs.complete (h : s.Runs x) (hplan : x.plan = []) : ∃ events, (s.follow events).Runs x.complete :=
  h.follow_steps hplan _

/-- What happens at a site does not depend on what is remembered of it. -/
theorem occur_congr {t : Site} (hlistener : t.listener = s.listener) (hintake : t.intake = s.intake) (e : Event) :
    (t.occur e).listener = (s.occur e).listener ∧ (t.occur e).intake = (s.occur e).intake := by
  obtain ⟨l, i, consumer, handed, abandoned, conversations⟩ := s
  obtain ⟨l', i', consumer', handed', abandoned', conversations'⟩ := t
  simp only at hlistener hintake
  subst hlistener hintake
  cases e with
  | arrive offer => exact ⟨rfl, rfl⟩
  | listener allowance => exact ⟨rfl, rfl⟩
  | worker connection allowance =>
      simp only [occur, step]
      cases i'.worker? connection with
      | none => exact ⟨rfl, rfl⟩
      | some w =>
          simp only [Option.elim_some, stepWorker]
          split
          · split
            · exact ⟨rfl, rfl⟩
            · exact ⟨rfl, rfl⟩
          · split
            · exact ⟨rfl, rfl⟩
            · exact ⟨rfl, rfl⟩
  | elapse t => exact ⟨rfl, rfl⟩

end Site

/-- A service goes on as its site does. -/
theorem Service.exists_site (service : Service) (s : Site) : ∃ t, (service.withSite s).site? = some t ∧
    ∀ e, (service.withSite s).withSite (t.occur e) = service.withSite (s.occur e) := by
  refine ⟨{ listener := s.listener, intake := s.intake }, rfl, fun e => ?_⟩
  obtain ⟨hlistener, hintake⟩ := Site.occur_congr (s := s)
    (t := { listener := s.listener, intake := s.intake }) rfl rfl e
  rw [withSite, hlistener, hintake]
  rfl

namespace Daemon.Course

variable {c : Course}

theorem run_append (c : Course) (moves more : List Move) : c.run (moves ++ more) = (c.run moves).run more :=
  List.foldl_append ..

/-! ## The drain task -/

/-- The drain task takes a batch when the daemon consumes what there is. -/
theorem Sound.daemon_takeBatch (h : c.Sound) : c.takeBatch.daemon = c.daemon.consume := by
  unfold Course.takeBatch Daemon.consume Service.drain
  cases hdrain : c.daemon.drain with
  | unused => rfl
  | ended => rfl
  | running taken =>
      rcases Queue.recvBatch_of_open (h.open_of_running hdrain).2 (Nat.zero_lt_of_lt h.supplied)
        (show 0 < batchSize by decide) with ⟨hnil, hbatch⟩ | ⟨hne, hbatch⟩
      · have hnone : c.daemon.service.intake.queue.drain batchSize = (c.queue, []) := Queue.drain_of_nil hnil _
        simp only [hbatch, hnone, List.length_nil, Nat.add_zero]
        rw [← hdrain]
        rfl
      · simp only [hbatch, List.isEmpty_eq_false_iff.mpr hne]
        rfl

/-! ## What happens while the service is being stopped -/

theorem happen_withSite {service : Service} {s : Site} (hservice : c.daemon.service = service.withSite s)
    (e : Site.Event) : ∃ traffic, c.happen e
      = { c with daemon := { c.daemon with service := service.withSite (s.occur e) }, traffic } := by
  obtain ⟨t, hsite, hoccur⟩ := service.exists_site s
  unfold happen
  rw [hservice, hsite]
  simp only [hoccur]
  exact ⟨_, rfl⟩

/-- As long as the listener's task has not broken down, everything can happen at the site of the service. -/
theorem run_events (service : Service) (s : Site) (hservice : c.daemon.service = service.withSite s)
    (hbroken : c.broken = none) (events : List Site.Event) :
    let c' := c.run (events.map .event)
    c'.daemon = { c.daemon with service := service.withSite (s.follow events) } ∧ c'.stage = c.stage ∧
      c'.broken = none ∧ c'.drained = c.drained := by
  induction events generalizing c s with
  | nil =>
      refine ⟨?_, rfl, hbroken, rfl⟩
      show c.daemon = { c.daemon with service := service.withSite s }
      rw [← hservice]
  | cons e events ih =>
      have hstep : c.step (.event e) = c.happen e := by
        cases e with
        | listener allowance => exact if_neg (by simp [hbroken])
        | _ => rfl
      obtain ⟨traffic, hnext⟩ := happen_withSite hservice e
      let next := { c with daemon := { c.daemon with service := service.withSite (s.occur e) }, traffic }
      have hrun : c.run ((e :: events).map .event) = next.run (events.map .event) := by
        show (c.step (.event e)).run (events.map .event) = _
        rw [hstep, hnext]
      rw [hrun]
      exact ih (c := next) (s.occur e) rfl hbroken

/-! ## Shutdown -/

/-- What the end of a listener's task is told as. A task that has not ended has broken down by then. -/
def outcomeOf (l : Listener) : Except Fault ListenerReport :=
  match l.result? with
  | some result => result.mapError IntakeError.toFault
  | none => .error (.lifecycle (.failed "listener task failed"))

theorem stop_of_runs {service : Service} {l : Listener} {s : Site} (hstate : service.state = .running)
    (hl : service.listener = some l) (hruns : s.Runs (service.windUp l)) :
    service.stop =
      ({ { service with state := .stopped }.withSite s with
          report := (outcomeOf s.listener).toOption.or service.report },
        (outcomeOf s.listener).map fun _ => ()) := by
  unfold Service.stop outcomeOf
  rw [hstate, hl]
  simp only [hruns.listener, hruns.intake, Option.bind_some]
  cases s.listener.result? with
  | none => rfl
  | some result =>
      cases result with
      | ok report => rfl
      | error e => rfl

/-- The end of the listener's task is noticed, after its breakdown if need be. -/
theorem run_join {l : Listener} (hstage : c.stage = .stopping) (hbroken : c.broken = none)
    (hl : c.daemon.service.listener = some l) :
    ∃ moves broken, c.run moves = { c with
      daemon.service.report := (outcomeOf l).toOption.or c.daemon.service.report
      stage := .signalled ((outcomeOf l).map fun _ => ())
      broken } := by
  have houtcome : c.outcome? = l.result?.map (·.mapError IntakeError.toFault) := by
    rw [outcome?, hbroken, hl]
    rfl
  unfold outcomeOf
  cases hresult : l.result? with
  | none =>
      rw [hresult] at houtcome
      refine ⟨[.breakDown "listener task failed", .join], some "listener task failed", ?_⟩
      show (c.breakDown "listener task failed").join = _
      rw [breakDown, houtcome]
      simp only [join, hstage]
      rfl
  | some result =>
      rw [hresult] at houtcome
      refine ⟨[.join], c.broken, ?_⟩
      show c.join = _
      rw [join, hstage, houtcome]
      rfl

theorem step_shutdown {l : Listener} (hstage : c.stage = .running) (hl : c.daemon.service.listener = some l) :
    c.step .shutdown = { c with
      daemon := { c.daemon.write .info "stopping ingest service" with
        service := { c.daemon.service with state := .stopped }.withSite
          (Site.stop { listener := l, intake := c.daemon.service.intake }) }
      stage := .stopping } := by
  have hsite : c.daemon.service.site? = some { listener := l, intake := c.daemon.service.intake } := by
    rw [Service.site?, hl]
    rfl
  show c.beginShutdown = _
  rw [beginShutdown, hstage, hsite]
  rfl

theorem run_stop (h : c.Sound) (hstage : c.stage = .running) (hbroken : c.broken = none) :
    ∃ moves, (c.run moves).daemon
        = { c.daemon.write .info "stopping ingest service" with service := c.daemon.service.stop.1 } ∧
      (c.run moves).stage = .signalled c.daemon.service.stop.2 ∧ (c.run moves).drained = c.drained := by
  obtain ⟨l, hl⟩ := Option.isSome_iff_exists.mp h.up.listener
  let s : Site := { listener := l, intake := c.daemon.service.intake }
  have hruns : s.Runs { intake := c.daemon.service.intake, listener := some l } := ⟨rfl, rfl, rfl, rfl⟩
  obtain ⟨events, hended⟩ := hruns.stop.complete rfl
  have hstop := stop_of_runs (h.up.running hstage).1 hl hended
  let service : Service := { c.daemon.service with state := .stopped }
  let told : Course :=
    { c with
      daemon := { c.daemon.write .info "stopping ingest service" with service := service.withSite s.stop }
      stage := .stopping }
  have htold : ∀ moves, c.run (.shutdown :: moves) = told.run moves := fun moves =>
    congrArg (·.run moves) (step_shutdown hstage hl)
  obtain ⟨hdaemon, hstopping, hunbroken, hdrained⟩ :=
    run_events (c := told) service s.stop rfl hbroken events
  have hlistener : (told.run (events.map .event)).daemon.service.listener
      = some (s.stop.follow events).listener := by
    rw [hdaemon]
    rfl
  obtain ⟨more, broken, hjoined⟩ := run_join hstopping hunbroken hlistener
  refine ⟨.shutdown :: (events.map .event ++ more), ?_⟩
  rw [htold, run_append, hjoined, hstop]
  refine ⟨?_, rfl, hdrained⟩
  rw [hdaemon]
  rfl

theorem uptime_finishUptime (d : Daemon) : d.finishUptime.uptime = false ∧ d.finishUptime.drain = d.drain := by
  unfold Daemon.finishUptime
  split
  · exact ⟨rfl, rfl⟩
  · next huptime => exact ⟨Bool.not_eq_true _ ▸ huptime, rfl⟩

/-- When the tasks of the daemon have been told to end, they do, and shutdown finishes. -/
theorem run_finish {stopped : Except Fault Unit} {taken : Nat} (hstage : c.stage = .signalled stopped)
    (hdrain : c.daemon.drain = .running taken) :
    ∃ traffic, c.run [.finishDrain, .finishUptime, .finish] = conclude
      { c with daemon := c.daemon.finishDrain.1.finishUptime, drained := c.daemon.finishDrain.2, traffic } stopped := by
  obtain ⟨huptime, hsame⟩ := uptime_finishUptime c.daemon.finishDrain.1
  rw [(finishDrain_of_running hdrain).2.1] at hsame
  refine ⟨c.traffic.note c.queue.close (.drain c.queue.close.length), ?_⟩
  show c.finishDrain.finishUptime.finish = _
  simp only [finishDrain, finishUptime, finish, hstage, hdrain, huptime, hsame]

theorem Sound.drain_of_running (h : c.Sound) (hstage : c.stage = .running) :
    ∃ taken, c.daemon.drain = .running taken := by
  have hdraining := h.draining
  unfold Draining at hdraining
  cases hdrain : c.daemon.drain with
  | unused =>
      rw [hdrain] at hdraining
      exact hdraining.elim
  | running taken => exact ⟨taken, rfl⟩
  | ended => exact absurd hdrain (h.up.running hstage).2

/-- What a daemon does at once when it shuts down is the end of its course. -/
theorem Sound.run_shutdown (h : c.Sound) (hstage : c.stage = .running) (hbroken : c.broken = none) :
    ∃ moves, (c.run moves).daemon = c.daemon.shutdown.1 ∧
      (c.run moves).stage = .finished c.daemon.service.stop.2 c.daemon.shutdown.2 := by
  obtain ⟨moves, hdaemon, hsignalled, hdrained⟩ := run_stop h hstage hbroken
  obtain ⟨taken, hdrain⟩ := h.drain_of_running hstage
  have hstill : (c.run moves).daemon.drain = .running taken := by
    rw [hdaemon]
    exact hdrain
  obtain ⟨traffic, hfinish⟩ := run_finish hsignalled hstill
  refine ⟨moves ++ [.finishDrain, .finishUptime, .finish], ?_⟩
  rw [run_append, hfinish, hdaemon]
  have hwrite : (c.daemon.write .info "stopping ingest service").service = c.daemon.service := rfl
  simp only [Daemon.shutdown, hwrite]
  generalize c.daemon.service.stop = result
  obtain ⟨service, stopped⟩ := result
  cases stopped with
  | error e => exact ⟨rfl, rfl⟩
  | ok _ => exact ⟨rfl, rfl⟩

/-- What a daemon leaves behind when it has shut down. -/
theorem Sound.shutdown (h : c.Sound) (hstage : c.stage = .running) (hbroken : c.broken = none) :
    let d := c.daemon.shutdown.1
    d.drain = .ended ∧ d.uptime = false ∧ d.service.intake.queue.closed = true ∧
      d.service.intake.queue.buffered = [] := by
  obtain ⟨moves, hdaemon, hfinished⟩ := h.run_shutdown hstage hbroken
  obtain ⟨hdrain, huptime, -⟩ := (h.run moves).ended_of_finished hfinished
  obtain ⟨hshut, hempty⟩ := (h.run moves).empty_of_ended hdrain
  unfold queue at hshut hempty
  rw [hdaemon] at hdrain huptime hshut hempty
  exact ⟨hdrain, huptime, hshut.closed, hempty⟩

/-- Shutdown can begin and finish at any time, also when the listener's task has broken down. -/
theorem Sound.exists_finished (h : c.Sound) (hstage : c.stage = .running) :
    ∃ moves stopped result, (c.run moves).stage = .finished stopped result := by
  cases hbroken : c.broken with
  | none =>
      obtain ⟨moves, -, hfinished⟩ := h.run_shutdown hstage hbroken
      exact ⟨moves, _, _, hfinished⟩
  | some message =>
      obtain ⟨l, hl⟩ := Option.isSome_iff_exists.mp h.up.listener
      obtain ⟨taken, hdrain⟩ := h.drain_of_running hstage
      let fault : Fault := .lifecycle (.failed message)
      have hjoined : (c.run [.shutdown, .join]).stage = .signalled (.error fault) ∧
          (c.run [.shutdown, .join]).daemon.drain = .running taken := by
        show (c.step .shutdown).join.stage = _ ∧ (c.step .shutdown).join.daemon.drain = _
        rw [step_shutdown hstage hl]
        unfold Course.join outcome?
        simp only [hbroken]
        exact ⟨rfl, hdrain⟩
      obtain ⟨traffic, hfinish⟩ := run_finish hjoined.1 hjoined.2
      refine ⟨[.shutdown, .join] ++ [.finishDrain, .finishUptime, .finish], .error fault, .error (.stop fault), ?_⟩
      rw [run_append, hfinish]
      rfl

end Daemon.Course

end LogIntake
