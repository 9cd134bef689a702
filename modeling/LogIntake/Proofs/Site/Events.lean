import LogIntake.Proofs.Connection.Stint
import LogIntake.Proofs.Listener
import LogIntake.Proofs.Queue.Places
import LogIntake.Proofs.Site

/-!
# What happens at a site of itself

Without its consumer a site goes on in events: something comes to the listening socket, the listener or a
worker takes a step, time passes. What an event does to the queue are operations of producers and of the clock.
They hand nothing to the consumer and do not close the queue, and each worker keeps its own producer.
-/

namespace LogIntake

namespace Queue

/-! ## Operations of producers and of the clock -/

def Operation.isPush : Operation → Bool
  | .push _ _ | .resume _ => true
  | _ => false

/-- Whether an operation is one of the consumer's. -/
def Operation.ofConsumer : Operation → Bool
  | .tryRecv | .recv | .drain _ | .recvBatch _ | .close => true
  | _ => false

theorem Operation.ofConsumer_of_isPush {op : Operation} (h : op.isPush = true) : op.ofConsumer = false := by
  cases op with
  | push now r => rfl
  | resume ticket => rfl
  | _ => cases h

theorem keeps_of_isPush (q : Queue) {op : Operation} (h : op.isPush = true) : q.Keeps (q.apply op) :=
  q.keeps_apply (by rintro rfl; cases h) (by rintro rfl; cases h) (by rintro rfl; cases h)

theorem drain_of_nil {q : Queue} (h : q.buffered = []) (n : Nat) : q.drain n = (q, []) := by
  unfold drain
  rw [h, List.take_nil, List.drop_nil]
  show (({ q with buffered := [] } : Queue), ([] : List Record)) = (q, [])
  rw [← h]

/-- From a queue that is open and has a producer, a batch is what can be drained, and it is not empty. -/
theorem recvBatch_of_open {q : Queue} {n : Nat} (hopen : q.closed = false) (hproducers : 0 < q.producers)
    (hn : 0 < n) : (q.buffered = [] ∧ q.recvBatch n = (q, .pending)) ∨
      ((q.drain n).2 ≠ [] ∧ q.recvBatch n = ((q.drain n).1, .ready (q.drain n).2)) := by
  have hnever : q.isFinished = false := by
    rw [isFinished, hopen, Bool.false_and, Bool.false_or, beq_eq_false_iff_ne]
    omega
  unfold recvBatch
  rw [if_neg (by simp; omega)]
  split
  · next hbuffered =>
      rw [hnever]
      exact Or.inl ⟨List.isEmpty_iff.mp hbuffered, rfl⟩
  · next hbuffered =>
      refine Or.inr ⟨?_, rfl⟩
      show q.buffered.take n ≠ []
      rw [Ne, List.take_eq_nil_iff, not_or]
      exact ⟨by omega, fun hnil => hbuffered (List.isEmpty_iff.mpr hnil)⟩

theorem drain_length (q : Queue) : (q.drain q.length).2 = q.buffered ∧ (q.drain q.length).1.buffered = [] := by
  have hgiven : (q.drain q.length).2 = q.buffered := List.take_of_length_le (Nat.le_refl _)
  have hrecords := (q.flow_drain q.length).records
  rw [hgiven, List.append_nil] at hrecords
  exact ⟨hgiven, List.self_eq_append_right.mp hrecords⟩

/-- The consumer has no part in what has happened to a queue. -/
structure Quiet (s t : Queue × Traffic) : Prop where
  closed : t.1.closed = s.1.closed
  handed : t.2.handed = s.2.handed
  empty : s.1.Shut ∧ s.1.buffered = [] → t.1.Shut ∧ t.1.buffered = []

theorem Quiet.refl (s : Queue × Traffic) : Quiet s s :=
  ⟨rfl, rfl, id⟩

theorem Quiet.trans {s t u : Queue × Traffic} (h : Quiet s t) (h' : Quiet t u) : Quiet s u :=
  ⟨h'.closed.trans h.closed, h'.handed.trans h.handed, h'.empty ∘ h.empty⟩

theorem quiet_perform (s : Queue × Traffic) {op : Operation} (h : op.ofConsumer = false) : Quiet s (perform s op) := by
  obtain ⟨q, t⟩ := s
  obtain ⟨taken, hflow⟩ := q.flow_apply op
  cases op with
  | push now r =>
      refine ⟨(q.keepsPlaces_push now r).closed, ?_, hflow.empty⟩
      show (t.begin r (q.push now r).2).handed = t.handed
      cases (q.push now r).2 with
      | done result => rfl
      | waits ticket => rfl
  | resume ticket =>
      refine ⟨(q.keeps_resume ticket).closed, ?_, hflow.empty⟩
      show ((q.resume ticket).2.elim t (t.settle ticket)).handed = t.handed
      cases (q.resume ticket).2 with
      | none => rfl
      | some result => rfl
  | expire now => exact ⟨rfl, List.append_nil _, hflow.empty⟩
  | addProducer => exact ⟨rfl, List.append_nil _, hflow.empty⟩
  | dropProducer => exact ⟨rfl, List.append_nil _, hflow.empty⟩
  | _ => cases h

theorem fst_run (s : Queue × Traffic) (ops : List Operation) : (run s ops).1 = ops.foldl apply s.1 := by
  induction ops generalizing s with
  | nil => rfl
  | cons op ops ih => exact ih _

theorem quiet_run (s : Queue × Traffic) {ops : List Operation} (h : ∀ op ∈ ops, op.ofConsumer = false) :
    Quiet s (run s ops) := by
  induction ops generalizing s with
  | nil => exact .refl s
  | cons op ops ih =>
      have hop := quiet_perform s (h op List.mem_cons_self)
      exact hop.trans (ih _ fun op hop => h op (List.mem_cons_of_mem _ hop))

end Queue

/-- A step of a worker pushes, if it does anything to the queue. -/
theorem Worker.isPush_of_operation {w : Worker} {now : Instant} {stopping : Bool} {q : Queue} {allowance : Nat}
    {op : Queue.Operation} (h : w.operation now stopping q allowance = some op) : op.isPush = true := by
  have hpush : ∀ {allowance : Nat} {payload : Bytes}, w.pushOf now q allowance payload = some op →
      op.isPush = true := by
    intro allowance payload hop
    unfold pushOf at hop
    split at hop
    · cases hop
    · cases hop
      rfl
  unfold operation at h
  split at h
  · exact hpush h
  · cases h
    rfl
  · obtain ⟨result, -, hresult⟩ := Option.bind_eq_some_iff.mp h
    obtain ⟨payload, -, hpayload⟩ := Option.bind_eq_some_iff.mp hresult
    exact hpush hpayload

namespace Site

/-! ## Events -/

inductive Event where
  /-- Something comes to the listening socket. -/
  | arrive (offer : Offer)
  | listener (allowance : Nat)
  | worker (connection allowance : Nat)
  | elapse (t : Instant)
  deriving DecidableEq, Repr

def occur (s : Site) : Event → Site
  | .arrive offer => { s with listener.offers := s.listener.offers ++ [offer] }
  | .listener allowance => s.step (.listener allowance)
  | .worker connection allowance => s.step (.worker connection allowance)
  | .elapse t => s.step (.elapse t)

/-- What a step of a worker does to the queue: its producer goes away with it. -/
def operationsOf (s : Site) (w : Worker) (allowance : Nat) : List Queue.Operation :=
  let turn := w.step s.intake.now s.intake.stopping s.intake.queue allowance
  (w.operation s.intake.now s.intake.stopping s.intake.queue allowance).toList
    ++ if turn.next.worker?.isNone then [.dropProducer] else []

/-- What an event does to the queue, one thing after the other. -/
def operations (s : Site) : Event → List Queue.Operation
  | .arrive _ => []
  | .listener allowance =>
    if (s.listener.step s.intake allowance).1.stats.accepted = s.listener.stats.accepted then [] else [.addProducer]
  | .worker connection allowance => (s.intake.worker? connection).elim [] (s.operationsOf · allowance)
  | .elapse t => [.expire t]

/-- Each worker has a producer of its own, and there is one more. -/
def Supplied (i : Intake) : Prop :=
  i.workers.length < i.queue.producers

variable {s : Site}

theorem ofConsumer_of_mem_operations {e : Event} {op : Queue.Operation} (h : op ∈ s.operations e) :
    op.ofConsumer = false := by
  cases e with
  | arrive offer => cases h
  | listener allowance =>
      simp only [operations] at h
      split at h
      · cases h
      · rw [List.mem_singleton.mp h]
        rfl
  | worker connection allowance =>
      simp only [operations] at h
      cases hw : s.intake.worker? connection with
      | none =>
          rw [hw] at h
          cases h
      | some w =>
          rw [hw, Option.elim_some, operationsOf, List.mem_append, Option.mem_toList] at h
          rcases h with hpush | hdrop
          · exact Queue.Operation.ofConsumer_of_isPush (Worker.isPush_of_operation hpush)
          · split at hdrop
            · rw [List.mem_singleton.mp hdrop]
              rfl
            · cases hdrop
  | elapse t =>
      rw [List.mem_singleton.mp h]
      rfl

/-! ## What an event leaves of the queue -/

/-- The signal to shut down and the note of a worker's end leave the workers and the queue as they are. -/
theorem intake_stepWorker (s : Site) (w : Worker) (allowance : Nat) :
    (s.stepWorker w allowance).intake.queue = (s.intake.stepWorker w allowance).1.queue ∧
      (s.stepWorker w allowance).intake.workers = (s.intake.stepWorker w allowance).1.workers := by
  unfold stepWorker
  simp only
  split
  · split
    · exact ⟨rfl, rfl⟩
    · exact ⟨rfl, rfl⟩
  · split
    · exact ⟨rfl, rfl⟩
    · exact ⟨rfl, rfl⟩

theorem queue_stepWorker (s : Site) (w : Worker) (allowance : Nat) :
    (s.stepWorker w allowance).intake.queue = (s.operationsOf w allowance).foldl Queue.apply s.intake.queue := by
  have hqueue := w.queue_step s.intake.now s.intake.stopping s.intake.queue allowance
  have hfold : ∀ (op : Option Queue.Operation) (q : Queue), op.toList.foldl Queue.apply q = op.elim q q.apply := by
    intro op q
    cases op with
    | none => rfl
    | some op => rfl
  rw [(s.intake_stepWorker w allowance).1, operationsOf, List.foldl_append, hfold, ← hqueue]
  cases s.intake.stepped_stepWorker w allowance with
  | left v next queue workers =>
      rw [queue, next]
      rfl
  | ended next queue workers =>
      rw [queue, next]
      rfl

theorem queue_stepListener (s : Site) (allowance : Nat) :
    (s.stepListener allowance).intake.queue
      = (s.operations (.listener allowance)).foldl Queue.apply s.intake.queue := by
  simp only [operations]
  cases Listener.stepped_step s.listener s.intake allowance with
  | idle options nextConnection accepted queue workers =>
      rw [if_pos accepted]
      exact queue
  | served at_ peer steps rest offers options nextConnection accepted queue workers =>
      rw [if_neg (by omega)]
      exact queue

theorem queue_occur (s : Site) (e : Event) :
    (s.occur e).intake.queue = (s.operations e).foldl Queue.apply s.intake.queue := by
  cases e with
  | arrive offer => rfl
  | listener allowance => exact s.queue_stepListener allowance
  | worker connection allowance =>
      show ((s.intake.worker? connection).elim s (s.stepWorker · allowance)).intake.queue
        = ((s.intake.worker? connection).elim [] (s.operationsOf · allowance)).foldl Queue.apply s.intake.queue
      cases s.intake.worker? connection with
      | none => rfl
      | some w => exact s.queue_stepWorker w allowance
  | elapse t => rfl

theorem supplied_stepWorker {w : Worker} (h : Supplied s.intake) (hw : w ∈ s.intake.workers) (allowance : Nat) :
    Supplied (s.stepWorker w allowance).intake := by
  obtain ⟨hqueue, hworkers⟩ := s.intake_stepWorker w allowance
  have hproducers : (w.step s.intake.now s.intake.stopping s.intake.queue allowance).queue.producers
      = s.intake.queue.producers := by
    rw [w.queue_step]
    cases hop : w.operation s.intake.now s.intake.stopping s.intake.queue allowance with
    | none => rfl
    | some op => exact (s.intake.queue.keeps_of_isPush (Worker.isPush_of_operation hop)).producers
  unfold Supplied at h ⊢
  rw [hqueue, hworkers]
  cases s.intake.stepped_stepWorker w allowance with
  | left v next queue workers =>
      rw [queue, workers, hproducers, Intake.replace, List.length_map]
      exact h
  | ended next queue workers =>
      have hfewer : (s.intake.workers.filter (·.connection != w.connection)).length < s.intake.workers.length :=
        List.length_filter_lt_length_iff_exists.mpr ⟨w, hw, by simp⟩
      rw [queue, workers]
      show _ < (w.step s.intake.now s.intake.stopping s.intake.queue allowance).queue.producers - 1
      omega

theorem supplied_occur (h : Supplied s.intake) (e : Event) : Supplied (s.occur e).intake := by
  cases e with
  | arrive offer => exact h
  | listener allowance =>
      show Supplied (s.listener.step s.intake allowance).2.1
      unfold Supplied at h ⊢
      cases Listener.stepped_step s.listener s.intake allowance with
      | idle options nextConnection accepted queue workers =>
          rw [queue, workers]
          exact h
      | served at_ peer steps rest offers options nextConnection accepted queue workers =>
          rw [queue, workers, List.length_append]
          exact Nat.succ_lt_succ h
  | worker connection allowance =>
      show Supplied ((s.intake.worker? connection).elim s (s.stepWorker · allowance)).intake
      cases hw : s.intake.worker? connection with
      | none => exact h
      | some w => exact supplied_stepWorker h (List.mem_of_find?_eq_some hw) allowance
  | elapse t => exact h

end Site
end LogIntake
