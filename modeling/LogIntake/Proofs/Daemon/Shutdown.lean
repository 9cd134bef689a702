import LogIntake.Proofs.Daemon.Course

/-!
# Shutdown loses nothing

When the shutdown of a daemon has finished, the drain task has taken every record whose push has succeeded, in the
order of the queue. Nothing comes in any more, whatever the workers do that are still there: the queue is closed.
-/

namespace LogIntake

namespace Daemon.Course

variable {c : Course} {stopped : Except Fault Unit} {result : Except DaemonError Nat}

/-! ## After the end -/

/-- Once shutdown has finished only the service goes on. -/
theorem step_of_finished (hstage : c.stage = .finished stopped result) (hdrain : c.daemon.drain = .ended) (m : Move) :
    (∃ e, c.step m = c.happen e) ∨ (∃ message, c.step m = { c with broken := some message }) ∨ c.step m = c := by
  cases m with
  | event e => exact (c.step_event e).imp (⟨e, ·⟩) Or.inr
  | breakDown message =>
      simp only [step, breakDown]
      split
      · exact Or.inr (Or.inr rfl)
      · exact Or.inr (Or.inl ⟨message, rfl⟩)
  | batch => exact Or.inr (Or.inr (by simp only [step, takeBatch, hdrain]))
  | shutdown => exact Or.inr (Or.inr (by simp only [step, beginShutdown, hstage]))
  | join => exact Or.inr (Or.inr (by simp only [step, join, hstage]))
  | finishDrain => exact Or.inr (Or.inr (by simp only [step, finishDrain, hstage]))
  | finishUptime => exact Or.inr (Or.inr (by simp only [step, finishUptime, hstage]))
  | finish => exact Or.inr (Or.inr (by simp only [step, finish, hstage]))

theorem Sound.finished_step (h : c.Sound) (hstage : c.stage = .finished stopped result) (m : Move) :
    (c.step m).stage = .finished stopped result ∧ (c.step m).traffic.handed = c.traffic.handed := by
  rcases step_of_finished hstage (h.ended_of_finished hstage).1 m with ⟨e, hstep⟩ | ⟨message, hstep⟩ | hstep
  · rw [hstep]
    exact ⟨(c.happened_happen e).stage.trans hstage, (c.happened_happen e).quiet.handed⟩
  · rw [hstep]
    exact ⟨hstage, rfl⟩
  · rw [hstep]
    exact ⟨hstage, rfl⟩

theorem Sound.finished_run (h : c.Sound) (hstage : c.stage = .finished stopped result) (moves : List Move) :
    (c.run moves).stage = .finished stopped result ∧ (c.run moves).traffic.handed = c.traffic.handed := by
  induction moves generalizing c with
  | nil => exact ⟨hstage, rfl⟩
  | cons m moves ih =>
      obtain ⟨hnext, hhanded⟩ := h.finished_step hstage m
      obtain ⟨hlast, hlater⟩ := ih (h.step m) hnext
      exact ⟨hlast, hlater.trans hhanded⟩

/-- A daemon whose shutdown has finished has left nothing in the queue, which is closed. -/
theorem Sound.handed_of_finished (h : c.Sound) (hstage : c.stage = .finished stopped result) :
    c.traffic.handed = c.traffic.entered ∧ c.queue.closed = true := by
  obtain ⟨hshut, hempty⟩ := h.empty_of_ended (h.ended_of_finished hstage).1
  have hrecords := h.agrees.records
  rw [hempty, List.append_nil] at hrecords
  exact ⟨hrecords, hshut.closed⟩

/-! ## Nothing is lost -/

/-- A daemon has been built and started, and some moves have been made. What the drain task has been handed and
what the queue still holds are then the records whose pushes have succeeded, in the order in which they did. When
shutdown has finished, however the service has been stopped and whoever of its workers is left, the drain task has
been handed all of them, and no task of the daemon is left. If the service has been stopped well, the number
returned is that of the successful pushes. Nothing comes in afterwards: every push finds the queue closed. -/
theorem nothing_lost {host host' : Host} {s : Settings} {d : Daemon} (hbuilt : (build host s).2 = .ok d)
    (hstarted : (d.start host').2 = .ok ()) (moves : List Move) :
    let c := ({ daemon := (d.start host').1 } : Course).run moves
    c.traffic.handed ++ c.queue.buffered = c.traffic.entered ∧
      (c.traffic.ended.map (·.1)).Nodup ∧
      ∀ stopped result, c.stage = .finished stopped result →
        c.traffic.handed = c.traffic.entered ∧
        c.daemon.drain = .ended ∧
        c.daemon.uptime = false ∧
        result = (stopped.mapError DaemonError.stop).map (fun _ => (c.traffic.ended.map (·.2)).count .taken) ∧
        ∀ more,
          let later := c.run more
          later.stage = c.stage ∧
          later.traffic.handed = c.traffic.handed ∧
          later.traffic.entered = c.traffic.entered ∧
          later.queue.closed = true ∧
          ∀ now r, (later.queue.push now r).2 = .done (.failed .closed) := by
  intro c
  have h : c.Sound := (sound_start (unstarted_of_build hbuilt) hstarted).run moves
  refine ⟨h.agrees.records, h.agrees.nodup_ended, fun stopped result hstage => ?_⟩
  obtain ⟨hdrain, huptime, hresult⟩ := h.ended_of_finished hstage
  obtain ⟨hall, -⟩ := h.handed_of_finished hstage
  refine ⟨hall, hdrain, huptime, ?_, fun more => ?_⟩
  · rw [hresult, h.drained, hall, h.agrees.length_entered]
  · obtain ⟨hlast, hhanded⟩ := h.finished_run hstage more
    obtain ⟨hlater, hclosed⟩ := (h.run more).handed_of_finished hlast
    refine ⟨hlast.trans hstage.symm, hhanded, ?_, hclosed, fun now r => Queue.push_of_closed hclosed now r⟩
    rw [← hlater, hhanded, hall]

/-- A daemon whose queue holds one record, and which waits for its workers for a second. -/
def crowded : Daemon :=
  let o : ServiceOptions := { listener.shutdownGrace := .ofSecs 1, queue.capacity := 1 }
  { settings := { ingest.shutdownGraceSecs := 1, queue.capacity := 1, metrics.enabled := true }
    service := { options := o, intake := { queue := .start o.queue } }
    log :=
      [.exporter Exporter.opened, .course .debug "daemon metrics recorded", .course .info "orchestrator initialized"] }

/-- A worker pushes three records. One is taken in a batch and one at the end; the last still waits then. -/
def crowdedMoves : List Move :=
  let sent : Bytes := [60, 114, 101, 99, 62, 65, 60, 47, 114, 101, 99, 62, 60, 114, 101, 99, 62, 66, 60, 47, 114,
    101, 99, 62, 60, 114, 101, 99, 62, 67, 60, 47, 114, 101, 99, 62]
  [.event (.arrive ⟨⟨0⟩, .connection (.v4 ⟨192, 0, 2, 10⟩ 40000) [.data sent]⟩), .event (.listener 1),
    .event (.listener 1), .event (.worker 1 1), .event (.worker 1 1), .event (.worker 1 1), .batch,
    .event (.worker 1 1), .event (.worker 1 1), .shutdown, .event (.listener 1), .event (.elapse (.ofSecs 1)),
    .event (.listener 1), .join, .finishDrain, .finishUptime, .finish]

theorem nothing_lost_crowded :
    let c := ({ daemon := (crowded.start {}).1 } : Course).run crowdedMoves
    let later := c.run [.event (.worker 1 1)]
    (build {} crowded.settings).2 = .ok crowded ∧
      (crowded.start {}).2 = .ok () ∧
      c.stage = .finished (.ok ()) (.ok 2) ∧
      c.daemon.service.intake.workers.length = 1 ∧
      c.traffic.handed.map (·.payload) = [[65], [66]] ∧
      c.traffic.entered = c.traffic.handed ∧
      later.traffic.ended = c.traffic.ended ++ [(2, .failed .closed)] ∧
      later.traffic.entered = c.traffic.entered := by
  have hbuilt : (build {} crowded.settings).2 = .ok crowded := by decide +kernel
  have hstarted : (crowded.start {}).2 = .ok () := by decide +kernel
  have hstage : (({ daemon := (crowded.start {}).1 } : Course).run crowdedMoves).stage
      = .finished (.ok ()) (.ok 2) := by decide +kernel
  obtain ⟨-, -, hfinished⟩ := nothing_lost hbuilt hstarted crowdedMoves
  obtain ⟨hall, -, -, -, hlater⟩ := hfinished _ _ hstage
  refine ⟨hbuilt, hstarted, hstage, ?_, ?_, hall.symm, ?_, (hlater _).2.2.1⟩
  · decide +kernel
  · decide +kernel
  · decide +kernel

/-- Nothing is lost when the listening socket fails meanwhile, either. -/
example :
    let failing : List Move := [.event (.arrive ⟨⟨0⟩, .failed (.os 22)⟩), .event (.listener 1)]
    let c := ({ daemon := (crowded.start {}).1 } : Course).run (crowdedMoves.take 6 ++ failing ++ crowdedMoves.drop 6)
    let cause := (IntakeError.listener (.os 22)).toFault
    c.stage = .finished (.error cause) (.error (.stop cause)) ∧ c.traffic.handed = c.traffic.entered ∧
      c.traffic.entered.map (·.payload) = [[65], [66]] := by
  decide +kernel

end Daemon.Course
end LogIntake
