import LogIntake.Execution
import LogIntake.Proofs.Connection.Dealing
import LogIntake.Proofs.Queue.Punctual
import LogIntake.Proofs.Site.Admission

/-!
# Sites and the clock

Steps take no time. The clock runs on only when neither the listener nor a worker can do anything, and no further
than to the next point of time at which one of them can. A site may share its queue with others, who push records and
take them out as they like. In such a run the queue stays as it should (`Orderly`): its pushes wait only while it is
full and no longer than they may, and each worker that waits has a ticket of its own.
-/

namespace LogIntake

/-- A worker rests when a turn would leave it waiting where it is. -/
def Worker.rests (w : Worker) (i : Intake) : Bool :=
  (w.step i.now i.stopping i.queue Execution.allowance).next = .blocked w

def Listener.rests (l : Listener) (i : Intake) : Bool :=
  l.hasStopped || (l.step i Execution.allowance).2.2 = .blocked

/-- Whether a listener accepts nothing more. -/
def Listener.isLeaving (l : Listener) : Bool :=
  match l.phase with
  | .stopping _ _ | .stopped _ _ => true
  | _ => false

/-- The tickets of the workers whose pushes wait. -/
def Intake.tickets (i : Intake) : List Nat :=
  i.workers.filterMap Worker.ticket?

namespace Site

/-! ## Runs in time -/

inductive Happening where
  | own (m : Move)
  /-- Another user of the queue does something to it. -/
  | others (op : Queue.Operation)
  deriving DecidableEq, Repr

def happen (s : Site) : Happening → Site
  | .own m => s.step m
  | .others op => { s with intake.queue := s.intake.queue.apply op }

def after (s : Site) (hs : List Happening) : Site :=
  hs.foldl happen s

def rests (s : Site) : Bool :=
  s.listener.rests s.intake && s.intake.workers.all (·.rests s.intake)

/-- The points of time at which something is due. -/
def timers (s : Site) : List Instant :=
  s.listener.nextTime.toList ++ s.intake.workers.filterMap Worker.nextTime ++ s.intake.queue.waiting.map (·.deadline)

/-- Whether something can happen. Others do not ask for the results of the workers' pushes. -/
def allows (s : Site) : Happening → Bool
  | .own (.elapse t) => s.rests && s.intake.now.nanos ≤ t.nanos && s.timers.all (t.nanos ≤ ·.nanos)
  | .own _ => true
  | .others op => op.isAt s.intake.now && s.intake.tickets.all (.resume · ≠ op)

def isTimed (s : Site) : List Happening → Bool
  | [] => true
  | h :: hs => s.allows h && (s.happen h).isTimed hs

/-- Whether something lets a task go on that can, or lets time pass. -/
def advances (s : Site) : Happening → Bool
  | .own (.listener allowance) => allowance ≠ 0 && !s.listener.rests s.intake
  | .own (.worker connection allowance) => allowance ≠ 0 && (s.intake.worker? connection).any (!·.rests s.intake)
  | .own (.elapse t) => s.intake.now.nanos < t.nanos
  | _ => false

variable {o : ListenerOptions} {qo : QueueOptions} {s : Site}

theorem after_append (s : Site) (hs more : List Happening) : s.after (hs ++ more) = (s.after hs).after more :=
  List.foldl_append ..

theorem isTimed_append (s : Site) (hs more : List Happening) :
    s.isTimed (hs ++ more) = (s.isTimed hs && (s.after hs).isTimed more) := by
  induction hs generalizing s with
  | nil => rfl
  | cons h hs ih =>
      rw [List.cons_append, isTimed, ih, isTimed, Bool.and_assoc]
      rfl

/-! ## What can happen -/

theorem phase_stepWorker (s : Site) (w : Worker) (allowance : Nat) :
    (s.stepWorker w allowance).listener.phase = s.listener.phase := by
  cases s.worked_stepWorker w allowance with
  | left v next workers queue ledger listener => rw [listener]
  | ended k next workers queue ledger listener => rw [listener]

theorem isLeaving_congr {l l' : Listener} (h : l'.phase = l.phase) : l'.isLeaving = l.isLeaving := by
  simp only [Listener.isLeaving, h]

/-- Something that concerns at most the queue and the signal to shut down. -/
structure Aside (s t : Site) : Prop where
  now : t.intake.now = s.intake.now
  workers : t.intake.workers = s.intake.workers
  phase : t.listener.phase = s.listener.phase
  cancelled : s.listener.cancelled = true → t.listener.cancelled = true
  stopping : t.intake.stopping = s.intake.stopping ∨ (t.intake.stopping = true ∧ t.listener.cancelled = true)
  flow : ∃ taken given, s.intake.queue.Flow t.intake.queue taken given

inductive Passes (s : Site) : Happening → Prop where
  | listener (allowance : Nat) : Passes s (.own (.listener allowance))
  | worker (connection allowance : Nat) (w : Worker) (served : s.intake.worker? connection = some w) :
      Passes s (.own (.worker connection allowance))
  | elapse (t : Instant) : Passes s (.own (.elapse t))
  | aside (m : Happening) (aside : s.Aside (s.happen m)) (idle : s.advances m = false) : Passes s m

theorem aside_consume (s : Site) (op : Queue.Operation) (records : List Record) :
    s.Aside (s.consume (s.intake.queue.apply op) records) := by
  obtain ⟨taken, hflow⟩ := s.intake.queue.flow_apply op
  unfold consume
  split
  · exact ⟨rfl, rfl, rfl, id, Or.inl rfl, _, _, hflow⟩
  · exact ⟨rfl, rfl, rfl, id, Or.inl rfl, _, _, .refl _⟩

theorem passes (s : Site) (m : Happening) : s.Passes m := by
  cases m with
  | others op =>
      obtain ⟨taken, hflow⟩ := s.intake.queue.flow_apply op
      exact .aside _ ⟨rfl, rfl, rfl, id, Or.inl rfl, _, _, hflow⟩ rfl
  | own m =>
      cases m with
      | listener allowance => exact .listener allowance
      | worker connection allowance =>
          cases hw : s.intake.worker? connection with
          | none =>
              have hsame : s.happen (.own (.worker connection allowance)) = s := by simp [happen, step, hw]
              refine .aside _ ?_ (by simp [advances, hw])
              rw [hsame]
              exact ⟨rfl, rfl, rfl, id, Or.inl rfl, _, _, .refl _⟩
          | some w => exact .worker connection allowance w hw
      | elapse t => exact .elapse t
      | drain n => exact .aside _ (s.aside_consume (.drain n) _) rfl
      | tryRecv => exact .aside _ (s.aside_consume .tryRecv _) rfl
      | recv => exact .aside _ (s.aside_consume .recv _) rfl
      | recvBatch n => exact .aside _ (s.aside_consume (.recvBatch n) _) rfl
      | close => exact .aside _ (s.aside_consume .close _) rfl
      | leave => exact .aside _ ⟨rfl, rfl, rfl, id, Or.inl rfl, _, _, s.intake.queue.flow_abandon⟩ rfl
      | stop => exact .aside _ ⟨rfl, rfl, rfl, fun _ => rfl, Or.inr ⟨rfl, rfl⟩, _, _, .refl _⟩ rfl

theorem happen_of_served {connection allowance : Nat} {w : Worker} (h : s.intake.worker? connection = some w) :
    s.happen (.own (.worker connection allowance)) = s.stepWorker w allowance := by
  simp [happen, step, h]

/-! ## The invariant -/

structure Orderly (o : ListenerOptions) (qo : QueueOptions) (s : Site) : Prop where
  admits : ∃ as, s.listener.Admits o s.intake as
  queue : s.intake.queue.Orderly qo s.intake.now s.intake.tickets
  leaving : s.listener.isLeaving = true → s.intake.stopping = true

theorem orderly_start (o : ListenerOptions) (qo : QueueOptions) (localAddress : Option SocketAddress)
    (offers : List Offer) : (start o qo localAddress offers).Orderly o qo :=
  ⟨⟨[], Listener.admits_start o localAddress offers (.start qo)⟩, Queue.orderly_start qo _, nofun⟩

theorem Orderly.nodup (h : s.Orderly o qo) : (s.intake.workers.map (·.connection)).Nodup := by
  obtain ⟨as, hadmits⟩ := h.admits
  exact (List.nodup_append.mp hadmits.nodup).2.1

theorem perm_tickets {i : Intake} {before after : List Worker} {w : Worker}
    (h : i.workers = before ++ w :: after) :
    i.tickets.Perm (w.ticket?.toList ++ (before ++ after).filterMap Worker.ticket?) := by
  rw [Intake.tickets, h, List.filterMap_append, List.filterMap_append, ← List.append_assoc]
  cases hticket : w.ticket? with
  | none => simp [List.filterMap_cons_none hticket]
  | some n =>
      rw [List.filterMap_cons_some hticket]
      exact List.perm_middle

theorem orderly_dealing {w : Worker} {now : Instant} {stopping : Bool} {q : Queue} {t : Worker.Turn} {ns : List Nat}
    (h : w.Dealing now stopping q t) (hq : q.Orderly qo now (w.ticket?.toList ++ ns)) :
    t.queue.Orderly qo now ((t.next.worker?.bind Worker.ticket?).toList ++ ns) := by
  cases h with
  | leaves queue ticket =>
      rw [queue]
      cases hnext : t.next.worker? with
      | none => exact hq.sublist (List.sublist_append_right _ _)
      | some v =>
          rw [Option.bind_some, ticket v hnext]
          exact hq
  | pushes r result free hand push ticket =>
      have hpushed := (hq.sublist (List.sublist_append_right _ ns)).apply (.push now r) (by simp [Queue.Operation.isAt])
        fun _ _ => Queue.Operation.noConfusion
      have hnone : t.next.worker?.bind Worker.ticket? = none := Option.bind_eq_none_iff.mpr ticket
      rw [hnone]
      simpa [Queue.apply, push] using hpushed
  | begins r n free hand push ticket =>
      have hwaits := (hq.sublist (List.sublist_append_right _ ns)).push_waits push
      cases hnext : t.next.worker? with
      | none => exact hwaits.sublist (List.sublist_cons_self n ns)
      | some v =>
          rw [Option.bind_some, ticket v hnext]
          exact hwaits
  | resumes n result holds resume ticket =>
      rw [holds] at hq
      have hnone : t.next.worker?.bind Worker.ticket? = none := Option.bind_eq_none_iff.mpr ticket
      have hresumed := hq.resume
      rw [hnone]
      simpa [resume] using hresumed

/-! ## Steps -/

theorem orderly_course {l l' : Listener} {i i' : Intake} {got : Option LogIntake.Accepted} (h : l.Course i got l' i')
    (hi : i.queue.Orderly qo i.now i.tickets) (hleaving : l.isLeaving = true → i.stopping = true) :
    i'.queue.Orderly qo i'.now i'.tickets ∧ (l'.isLeaving = true → i'.stopping = true) := by
  have hdone (h : l.phase = .accepting) (hl : l.isLeaving = true) : False := by simp [Listener.isLeaving, h] at hl
  cases h with
  | waits => exact ⟨hi, hleaving⟩
  | opens log phase => exact ⟨hi, nofun⟩
  | told log phase cancelled => exact ⟨hi, fun _ => rfl⟩
  | finishes deadline failure phase ended => exact ⟨hi, fun _ => hleaving (by simp [Listener.isLeaving, phase])⟩
  | rejects peer steps rest phase full => exact ⟨hi, fun hl => (hdone phase hl).elim⟩
  | serves peer steps rest phase free =>
      refine ⟨?_, fun hl => (hdone phase hl).elim⟩
      have htickets : ({ l with offers := rest }.serve i peer steps).2.tickets = i.tickets :=
        List.filterMap_append.trans (List.append_nil _)
      rw [htickets]
      exact hi.apply .addProducer rfl fun _ _ => Queue.Operation.noConfusion
  | backsOff cause rest phase mild => exact ⟨hi, nofun⟩
  | breaks cause rest log phase grave => exact ⟨hi, fun _ => rfl⟩

theorem queue_stepWorker_orderly (h : s.Orderly o qo) {w : Worker} (hw : w ∈ s.intake.workers) (allowance : Nat) :
    (s.stepWorker w allowance).intake.queue.Orderly qo s.intake.now (s.stepWorker w allowance).intake.tickets := by
  have hconnection := (w.balanced_step s.intake.now s.intake.stopping s.intake.queue allowance).going
  have hworked := s.worked_stepWorker w allowance
  obtain ⟨before, after, hsplit, hreplace, hfilter⟩ := Intake.exists_split h.nodup hw
  have hturn := orderly_dealing (w.dealing_step s.intake.now s.intake.stopping s.intake.queue allowance)
    (h.queue.perm (perm_tickets hsplit).symm)
  generalize s.stepWorker w allowance = t at *
  cases hworked with
  | left v next workers queue ledger listener =>
      rw [hreplace v (hconnection v next).1] at workers
      rw [next] at hturn
      rw [queue]
      exact hturn.perm (perm_tickets workers)
  | ended k next workers queue ledger listener =>
      rw [hfilter] at workers
      rw [next] at hturn
      rw [queue, Intake.tickets, workers]
      exact hturn.apply .dropProducer rfl fun _ _ => Queue.Operation.noConfusion

/-- Whatever is done to the queue and nothing else. -/
theorem Orderly.of_queue (h : s.Orderly o qo) {t : Site} {q : Queue} (hlistener : t.listener = s.listener)
    (hintake : t.intake = { s.intake with queue := q }) (hq : q.Orderly qo s.intake.now s.intake.tickets) :
    t.Orderly o qo := by
  obtain ⟨as, hadmits⟩ := h.admits
  have hleaving := h.leaving
  rw [← hlistener] at hadmits hleaving
  refine ⟨⟨as, ?_⟩, ?_, ?_⟩
  · rw [hintake]
    exact hadmits.of_same rfl rfl rfl rfl rfl rfl rfl rfl
  · rw [hintake]
    exact hq
  · rw [hintake]
    exact hleaving

theorem Orderly.consume (h : s.Orderly o qo) (op : Queue.Operation) (hat : op.isAt s.intake.now = true)
    (hconsumer : ∀ n, op ≠ .resume n) (records : List Record) :
    (s.consume (s.intake.queue.apply op) records).Orderly o qo := by
  unfold Site.consume
  split
  · exact h.of_queue rfl rfl (h.queue.apply op hat fun n _ => hconsumer n)
  · exact h

theorem Orderly.stepWorker (h : s.Orderly o qo) {w : Worker} (hw : w ∈ s.intake.workers) (allowance : Nat) :
    (s.stepWorker w allowance).Orderly o qo := by
  obtain ⟨as, hadmits⟩ := h.admits
  obtain ⟨hnow, hstopping⟩ := s.clock_stepWorker w allowance
  refine ⟨⟨as, admits_stepWorker hadmits hw allowance⟩, ?_, fun hleaving => ?_⟩
  · rw [hnow]
    exact queue_stepWorker_orderly h hw allowance
  · rw [isLeaving_congr (s.phase_stepWorker w allowance)] at hleaving
    rw [hstopping, h.leaving hleaving, Bool.true_or]

theorem Orderly.happen (h : s.Orderly o qo) {m : Happening} (hallows : s.allows m = true) :
    (s.happen m).Orderly o qo := by
  obtain ⟨as, hadmits⟩ := h.admits
  cases m with
  | others op =>
      simp only [allows, Bool.and_eq_true, List.all_eq_true, decide_eq_true_eq] at hallows
      exact h.of_queue rfl rfl (h.queue.apply op hallows.1 fun n hn => (hallows.2 n hn).symm)
  | own m =>
      have hadmits := admits_step hadmits m
      cases m with
      | listener allowance =>
          have hcourse := Listener.course_step s.listener s.intake allowance
          obtain ⟨hqueue, hleaving⟩ := orderly_course hcourse h.queue h.leaving
          exact ⟨⟨_, hadmits⟩, hqueue, hleaving⟩
      | worker connection allowance =>
          simp only [Site.happen, step]
          cases hw : s.intake.worker? connection with
          | none => exact h
          | some w => exact h.stepWorker (List.mem_of_find?_eq_some hw) allowance
      | drain n => exact h.consume (.drain n) rfl (fun _ => Queue.Operation.noConfusion) _
      | tryRecv => exact h.consume .tryRecv rfl (fun _ => Queue.Operation.noConfusion) _
      | recv => exact h.consume .recv rfl (fun _ => Queue.Operation.noConfusion) _
      | recvBatch n => exact h.consume (.recvBatch n) rfl (fun _ => Queue.Operation.noConfusion) _
      | close => exact h.consume .close rfl (fun _ => Queue.Operation.noConfusion) _
      | leave => exact h.of_queue rfl rfl h.queue.abandon
      | stop => exact ⟨⟨_, hadmits⟩, h.queue, fun _ => rfl⟩
      | elapse t =>
          simp only [allows, Bool.and_eq_true, decide_eq_true_eq] at hallows
          exact ⟨⟨_, hadmits⟩, h.queue.expire hallows.1.2, h.leaving⟩

theorem Orderly.after (h : s.Orderly o qo) {hs : List Happening} (htimed : s.isTimed hs = true) :
    (s.after hs).Orderly o qo := by
  induction hs generalizing s with
  | nil => exact h
  | cons m hs ih =>
      simp only [isTimed, Bool.and_eq_true] at htimed
      exact ih (h.happen htimed.1) htimed.2

end Site

end LogIntake
