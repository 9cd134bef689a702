import LogIntake.Listener
import LogIntake.Proofs.Connection.Worker

/-!
# Steps of the listener and of workers

What a step leaves of the workers and the queue. A step of the listener adds a worker with a new number, for
the connection offered first, or leaves the workers and the queue as they are.
-/

namespace LogIntake

namespace Listener

inductive Stepped (l : Listener) (i : Intake) (next : Listener) (j : Intake) : Prop where
  /-- No connection has been taken on. -/
  | idle (options : next.options = l.options) (nextConnection : next.nextConnection = l.nextConnection)
      (accepted : next.stats.accepted = l.stats.accepted) (queue : j.queue = i.queue) (workers : j.workers = i.workers)
  | served (at_ : Instant) (peer : SocketAddress) (steps : List Source.Step) (rest : List Offer)
      (offers : l.offers = ⟨at_, .connection peer steps⟩ :: rest) (options : next.options = l.options)
      (nextConnection : next.nextConnection = l.nextConnection + 1)
      (accepted : next.stats.accepted = l.stats.accepted + 1) (queue : j.queue = i.queue.addProducer)
      (workers : j.workers = i.workers ++ [.start l.nextConnection peer l.options.worker steps])

theorem stepped_accept (l : Listener) (i : Intake) (allowance : Nat) :
    Stepped l i (l.accept i allowance).1 (l.accept i allowance).2.1 := by
  unfold accept
  split
  · exact .idle rfl rfl rfl rfl rfl
  · next offer rest hoffers =>
      split
      · exact .idle rfl rfl rfl rfl rfl
      · obtain ⟨at_, accepted⟩ := offer
        cases accepted with
        | connection peer steps =>
            simp only [dispatch]
            split
            · exact .idle rfl rfl rfl rfl rfl
            · exact .served at_ peer steps rest hoffers rfl rfl rfl rfl rfl
        | failed cause =>
            simp only
            split
            · exact .idle rfl rfl rfl rfl rfl
            · exact .idle rfl rfl rfl rfl rfl

theorem stepped_step (l : Listener) (i : Intake) (allowance : Nat) :
    Stepped l i (l.step i allowance).1 (l.step i allowance).2.1 := by
  unfold step
  split
  · exact .idle rfl rfl rfl rfl rfl
  · split
    · exact .idle rfl rfl rfl rfl rfl
    · split
      · exact .idle rfl rfl rfl rfl rfl
      · exact stepped_accept l i allowance
  · split
    · exact .idle rfl rfl rfl rfl rfl
    · split
      · exact .idle rfl rfl rfl rfl rfl
      · split
        · exact .idle rfl rfl rfl rfl rfl
        · exact .idle rfl rfl rfl rfl rfl
  · split
    · unfold finish
      split
      · exact .idle rfl rfl rfl rfl rfl
      · exact .idle rfl rfl rfl rfl rfl
    · exact .idle rfl rfl rfl rfl rfl
  · exact .idle rfl rfl rfl rfl rfl

end Listener

namespace Intake

/-- What a step of a worker leaves of the workers and the queue. -/
inductive Stepped (i : Intake) (w : Worker) (turn : Worker.Turn) (j : Intake) : Prop where
  | left (v : Worker) (next : turn.next.worker? = some v)
      (queue : j.queue = turn.queue) (workers : j.workers = (i.replace v).workers)
  | ended (next : turn.next.worker? = none) (queue : j.queue = turn.queue.dropProducer)
      (workers : j.workers = i.workers.filter (·.connection != w.connection))

theorem stepped_stepWorker (i : Intake) (w : Worker) (allowance : Nat) :
    Stepped i w (w.step i.now i.stopping i.queue allowance) (i.stepWorker w allowance).1 := by
  unfold stepWorker
  simp only
  split
  · next v hnext => exact .left v (by rw [hnext]; rfl) rfl rfl
  · next v hnext => exact .left v (by rw [hnext]; rfl) rfl rfl
  · next v hnext => exact .left v (by rw [hnext]; rfl) rfl rfl
  · next closing hnext => exact .ended (by rw [hnext]; rfl) rfl rfl

theorem mem_replace {i : Intake} {u v : Worker} (h : u ∈ (i.replace v).workers) :
    u = v ∨ (u ∈ i.workers ∧ u.connection ≠ v.connection) := by
  obtain ⟨u₀, hu₀, rfl⟩ := List.mem_map.mp h
  by_cases hconnection : u₀.connection = v.connection
  · exact Or.inl (if_pos hconnection)
  · rw [if_neg hconnection]
    exact Or.inr ⟨hu₀, hconnection⟩

theorem map_connection_replace (i : Intake) (v : Worker) :
    (i.replace v).workers.map (·.connection) = i.workers.map (·.connection) := by
  unfold replace
  rw [List.map_map]
  refine List.map_congr_left fun u _ => ?_
  show (if u.connection = v.connection then v else u).connection = u.connection
  split
  · next hconnection => exact hconnection.symm
  · rfl

end Intake

end LogIntake
