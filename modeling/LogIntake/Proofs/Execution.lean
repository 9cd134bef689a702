import LogIntake.Execution
import LogIntake.Proofs.Delivery

/-!
# Executions are runs of sites

An execution with a listener makes moves of a site and nothing else: what it keeps besides only says whose
turn it is. So what holds in every run of a site holds at every point of an execution.
-/

namespace LogIntake

def Execution.Finding.handed : Execution.Finding → List Record
  | .records rs => rs
  | .stats _ => []

/-- A site is in the state in which an execution is. -/
structure Site.Runs (s : Site) (x : Execution) : Prop where
  listener : x.listener = some s.listener
  intake : x.intake = s.intake
  consumer : x.consumer = s.consumer
  handed : x.findings.flatMap Execution.Finding.handed = s.handed

namespace Execution

/-! ## Whose turn it is -/

/-- What two executions have in common that differ only in whose turn it is. -/
structure Same (x y : Execution) : Prop where
  listener : y.listener = x.listener
  intake : y.intake = x.intake
  consumer : y.consumer = x.consumer
  findings : y.findings = x.findings

theorem Same.refl (x : Execution) : x.Same x :=
  ⟨rfl, rfl, rfl, rfl⟩

theorem Same.trans {x y z : Execution} (h : x.Same y) (h' : y.Same z) : x.Same z :=
  ⟨h'.listener.trans h.listener, h'.intake.trans h.intake, h'.consumer.trans h.consumer,
    h'.findings.trans h.findings⟩

theorem same_wake (x : Execution) (connections : List Nat) : x.Same (x.wake connections) :=
  ⟨rfl, rfl, rfl, rfl⟩

theorem same_wakeListener (x : Execution) : x.Same x.wakeListener :=
  ⟨rfl, rfl, rfl, rfl⟩

theorem same_wakeTask (x : Execution) (task : Task) : x.Same (x.wakeTask task) := by
  cases task with
  | listener => exact same_wakeListener x
  | worker connection => exact same_wake x [connection]

theorem same_endRound (x : Execution) : x.Same x.endRound := by
  have hfold : ∀ (tasks : List Task) (y : Execution), y.Same (tasks.foldl wakeTask y) := by
    intro tasks
    induction tasks with
    | nil => exact Same.refl
    | cons task tasks ih => exact fun y => (same_wakeTask y task).trans (ih _)
  have hend : x.Same { x with round := none, spent := [] } := ⟨rfl, rfl, rfl, rfl⟩
  exact hend.trans (hfold x.spent _)

theorem same_settle (x : Execution) (task : Task) (status : Intake.Status) : x.Same (x.settle task status) := by
  cases status with
  | goesOn left => exact ⟨rfl, rfl, rfl, rfl⟩
  | spent => exact ⟨rfl, rfl, rfl, rfl⟩
  | blocked => exact .refl x
  | ended => exact .refl x

end Execution

namespace Site

variable {s : Site} {x y : Execution}

theorem Runs.of_same (h : s.Runs x) (hsame : x.Same y) : s.Runs y := by
  refine ⟨hsame.listener.trans h.listener, hsame.intake.trans h.intake, hsame.consumer.trans h.consumer, ?_⟩
  rw [hsame.findings]
  exact h.handed

/-! ## Moves -/

theorem Runs.stop (h : s.Runs x) : s.stop.Runs x.stop := by
  have hstop : s.stop.Runs
      { x with intake := x.intake.stop, listener := x.listener.map ({ · with cancelled := true }) } := by
    refine ⟨?_, ?_, h.consumer, h.handed⟩
    · simp only [h.listener]
      rfl
    · simp only [h.intake]
      rfl
  exact hstop.of_same ((Execution.same_wake _ _).trans (Execution.same_wakeListener _))

theorem Runs.runListener (h : s.Runs x) (left : Nat) : (s.stepListener left).Runs (x.runListener left s.listener) := by
  unfold Execution.runListener stepListener
  rw [h.intake]
  generalize s.listener.step s.intake left = result
  obtain ⟨l, i, status⟩ := result
  have hstep : Runs { s with listener := l, intake := i, conversations := s.conversations ++ begun s.listener l }
      { x with listener := some l, intake := i } := ⟨rfl, rfl, h.consumer, h.handed⟩
  simp only
  split
  · exact ((hstep.of_same (Execution.same_wake _ _)).of_same (Execution.same_wake _ _)).of_same
      (Execution.same_settle _ _ _)
  · exact (hstep.of_same (Execution.same_wake _ _)).of_same (Execution.same_settle _ _ _)

/-- The end of a step of a worker, of which the listener takes note if the worker has ended. -/
theorem Runs.settleWorker (h : s.Runs x) (w : Worker) (status : Intake.Status) :
    (if status = .ended then s.release else s).Runs
      (match status, x.listener with
        | .ended, some l =>
          let (l, intake) := l.release x.intake
          let x := { x with listener := some l, intake }
          if x.intake.workers.isEmpty then x.wakeListener else x
        | _, _ => x.settle (.worker w.connection) status) := by
  have hsettle : s.Runs (x.settle (.worker w.connection) status) := h.of_same (Execution.same_settle _ _ _)
  cases status with
  | ended =>
      rw [h.listener, h.intake]
      have hrelease : s.release.Runs
          { x with listener := some (s.listener.release s.intake).1, intake := (s.listener.release s.intake).2 } :=
        ⟨rfl, rfl, h.consumer, h.handed⟩
      simp only [if_true]
      split
      · exact hrelease.of_same (Execution.same_wakeListener _)
      · exact hrelease
  | goesOn left => exact hsettle
  | blocked => exact hsettle
  | spent => exact hsettle

theorem Runs.runWorker (h : s.Runs x) (left : Nat) (w : Worker) : (s.stepWorker w left).Runs (x.runWorker left w) := by
  unfold Execution.runWorker stepWorker
  rw [h.intake]
  generalize s.intake.stepWorker w left = result
  obtain ⟨i, status, signalled⟩ := result
  have hstep : Runs { s with intake := i, conversations := s.conversations.map (s.advance w left) }
      { x with intake := i } := ⟨h.listener, rfl, h.consumer, h.handed⟩
  simp only
  cases signalled with
  | true => exact hstep.stop.settleWorker w status
  | false => exact hstep.settleWorker w status

/-- The move of a site that a task makes with what is left of its allowance. -/
def moveOf (left : Nat) : Execution.Task → Move
  | .listener => .listener left
  | .worker connection => .worker connection left

theorem Runs.run (h : s.Runs x) (task : Execution.Task) (left : Nat) :
    (s.step (moveOf left task)).Runs (x.run task left) := by
  have hturn : s.Runs { x with turn := none } := h.of_same ⟨rfl, rfl, rfl, rfl⟩
  unfold Execution.run
  cases task with
  | listener =>
      simp only [h.listener]
      exact hturn.runListener left
  | worker connection =>
      have hworker : x.intake.worker? connection = s.intake.worker? connection := by rw [h.intake]
      show ((s.intake.worker? connection).elim s (s.stepWorker · left)).Runs
        ((x.intake.worker? connection).elim _ ({ x with turn := none }.runWorker left))
      rw [hworker]
      cases s.intake.worker? connection with
      | none => exact hturn
      | some w => exact hturn.runWorker left w

/-! ## Time -/

def movesOf : Execution.Act → List Move
  | .pop n => [.drain n]
  | .close => [.close]
  | .leave => [.leave]
  | .stop => [.stop]
  | .probe => []

theorem Runs.act (h : s.Runs x) (a : Execution.Act) : (s.run (movesOf a)).Runs (x.act a) := by
  cases a with
  | pop n =>
      show (s.consume (s.intake.queue.drain n).1 (s.intake.queue.drain n).2).Runs (x.act (.pop n))
      unfold consume Execution.act
      rw [h.consumer, h.intake]
      split
      · refine ⟨h.listener, rfl, rfl, ?_⟩
        simp only [List.flatMap_append, h.handed]
        simp [Execution.Finding.handed]
      · exact h
  | close =>
      show (s.consume s.intake.queue.close []).Runs (x.act .close)
      unfold consume Execution.act
      rw [h.consumer, h.intake]
      split
      · refine ⟨h.listener, rfl, rfl, ?_⟩
        simp only [h.handed, List.append_nil]
      · exact h
  | leave =>
      refine ⟨h.listener, ?_, rfl, h.handed⟩
      simp only [Execution.act, h.intake]
      rfl
  | stop => exact h.stop
  | probe =>
      refine ⟨h.listener, h.intake, h.consumer, ?_⟩
      simp only [Execution.act, List.flatMap_append, h.handed, h.listener]
      exact List.append_nil _

theorem run_append (s : Site) (moves more : List Move) : s.run (moves ++ more) = (s.run moves).run more :=
  List.foldl_append ..

theorem Runs.acts (h : s.Runs x) (acts : List Execution.Act) :
    (s.run (acts.flatMap movesOf)).Runs (acts.foldl .act x) := by
  induction acts generalizing s x with
  | nil => exact h
  | cons a acts ih =>
      rw [List.flatMap_cons, run_append]
      exact ih (h.act a)

/-- When the clock has jumped, the first acts of the plan are done. -/
theorem Runs.jump (h : s.Runs x) (t : Instant) :
    ∃ acts, acts <+: x.plan.map (·.2) ∧ (s.run (.elapse t :: acts.flatMap movesOf)).Runs (x.jump t) := by
  have helapse : (s.step (.elapse t)).Runs { x with intake := x.intake.elapse t } := by
    refine ⟨h.listener, ?_, h.consumer, h.handed⟩
    simp only [h.intake]
    rfl
  unfold Execution.jump
  simp only
  generalize hdue : ((x.plan.takeWhile _).map (·.2)) = acts
  have hprefix : acts <+: x.plan.map (·.2) := by
    rw [← hdue]
    exact (List.takeWhile_prefix _).map _
  have hacts := (helapse.of_same (y := { x with
    intake := x.intake.elapse t, plan := x.plan.drop acts.length, round := none }) ⟨rfl, rfl, rfl, rfl⟩).acts acts
  refine ⟨acts, hprefix, ?_⟩
  split
  · exact ((hacts.of_same (Execution.same_wake _ _)).of_same (Execution.same_wake _ _)).of_same
      (Execution.same_wakeListener _)
  · exact (hacts.of_same (Execution.same_wake _ _)).of_same (Execution.same_wake _ _)

theorem Runs.step (h : s.Runs x) (hstep : x.step = some y) : ∃ moves, (s.run moves).Runs y := by
  unfold Execution.step at hstep
  split at hstep
  · cases hstep
  · split at hstep
    · next task left _ =>
        obtain rfl := Option.some.inj hstep
        exact ⟨[moveOf left task], h.run task left⟩
    · obtain rfl := Option.some.inj hstep
      exact ⟨[], h.of_same ⟨rfl, rfl, rfl, rfl⟩⟩
    · obtain rfl := Option.some.inj hstep
      exact ⟨[], h.of_same (Execution.same_endRound x)⟩
    · obtain rfl := Option.some.inj hstep
      exact ⟨[], h.of_same ⟨rfl, rfl, rfl, rfl⟩⟩
    · split at hstep
      · obtain rfl := Option.some.inj hstep
        exact ⟨[], h.of_same (Execution.same_endRound x)⟩
      · obtain ⟨t, -, rfl⟩ := Option.map_eq_some_iff.mp hstep
        obtain ⟨acts, -, hjump⟩ := h.jump t
        exact ⟨_, hjump⟩

theorem Runs.steps (h : s.Runs x) (fuel : Nat) : ∃ moves, (s.run moves).Runs (x.steps fuel) := by
  induction fuel generalizing s x with
  | zero => exact ⟨[], h⟩
  | succ fuel ih =>
      unfold Execution.steps
      cases hstep : x.step with
      | none => exact ⟨[], h⟩
      | some y =>
          obtain ⟨moves, hmoves⟩ := h.step hstep
          obtain ⟨more, hmore⟩ := ih hmoves
          rw [← run_append] at hmore
          exact ⟨moves ++ more, hmore⟩

/-- A run of a listener is a run of a site. -/
theorem runs_ofListener (o : ListenerOptions) (queue : QueueOptions) (localAddress : Option SocketAddress)
    (offers : List Offer) (plan : List (Instant × Execution.Act)) :
    ∃ moves, ((start o queue localAddress offers).run moves).Runs
      (.ofListener o queue localAddress offers plan) := by
  refine Runs.steps ?_ _
  exact ⟨rfl, rfl, rfl, rfl⟩

end Site

/-- In a run of a listener no record comes to the consumer twice, and those of each connection come in order. -/
theorem Execution.handed_in_order (o : ListenerOptions) (queue : QueueOptions) (localAddress : Option SocketAddress)
    (offers : List Offer) (plan : List (Instant × Execution.Act)) :
    let x := ofListener o queue localAddress offers plan
    let rs := x.findings.flatMap Finding.handed ++ x.rest
    (rs.map fun r => (r.connection, r.sequence)).Nodup ∧
      ∀ connection, ∃ n, (rs.filter (·.connection == connection)).map (·.sequence) = List.range n := by
  intro x rs
  obtain ⟨moves, hruns⟩ := Site.runs_ofListener o queue localAddress offers plan
  have hdelivers := (Site.delivers_start o queue localAddress offers).run moves
  have hheld : rs <+: ((Site.start o queue localAddress offers).run moves).records := by
    have hrest : x.rest = ((Site.start o queue localAddress offers).run moves).intake.queue.buffered := by
      rw [rest, hruns.intake]
    show x.findings.flatMap Finding.handed ++ x.rest <+: _
    rw [hruns.handed, hrest]
    exact hdelivers.isPrefix
  refine ⟨hdelivers.nodup_numbers.sublist (hheld.sublist.map _), fun connection => ?_⟩
  obtain ⟨n, hn⟩ := hdelivers.numbered connection
  have hsequences := (hheld.filter (·.connection == connection)).map (·.sequence)
  rw [hn] at hsequences
  have htake := List.prefix_iff_eq_take.mp hsequences
  rw [List.take_range] at htake
  exact ⟨_, htake⟩

end LogIntake
