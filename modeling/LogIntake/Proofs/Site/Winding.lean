import LogIntake.Proofs.Connection.Cancellation
import LogIntake.Proofs.Site.Timed

/-!
# Winding up

Once it has been told to shut down, a site winds up (`Winding`): no worker begins, and each finishes the push that it
has in hand. So when the clock runs on, every worker that is left waits in a push that had begun when the signal was
given, and the queue is full (`Winding.stuck`).
-/

namespace LogIntake

/-! ## What rests -/

theorem Worker.rests_iff_waits {w : Worker} {i : Intake} (hstopping : i.stopping = true) :
    w.rests i = true ↔ w.Waits i.queue := by
  unfold Worker.rests
  rw [hstopping, decide_eq_true_iff]
  constructor
  · intro hblocked
    rcases nearer_step (congrArg Next.worker? hblocked) with ⟨-, hspent | hwaits⟩ | hnearer
    · cases hspent
    · exact hwaits
    · exact absurd hnearer (Nat.lt_irrefl _)
  · rintro ⟨n, hphase, hnone⟩
    rw [Stint.step_of_waits hphase hnone]

theorem Worker.distance_pos (w : Worker) : 0 < w.distance := by
  cases hphase : w.phase with
  | _ => simp [distance, hphase]

namespace Listener

/-- After how many steps a listener that has been told to shut down has stopped, if no worker keeps it. -/
def distance (l : Listener) : Nat :=
  match l.phase with
  | .starting | .backingOff _ => 3
  | .accepting => 2
  | .stopping _ _ => 1
  | .stopped _ _ => 0

/-- A listener that accepts nothing more, or is about to. -/
def Told (l : Listener) : Prop :=
  l.cancelled = true ∨ l.isLeaving = true

variable {l : Listener} {i : Intake} {allowance : Nat}

theorem Told.cancelled (h : l.Told) (hgoing : l.isLeaving = false) : l.cancelled = true :=
  h.resolve_right (by simp [hgoing])

theorem Told.receives (h : l.Told) (i : Intake) (allowance : Nat) : l.receives i allowance = none := by
  unfold Listener.receives
  split
  · next hphase _ =>
      have hcancelled := h.cancelled (by simp [isLeaving, hphase])
      simp [hcancelled]
  · rfl

theorem Told.nearer (h : l.Told) (hallowance : allowance ≠ 0) (hrests : l.rests i = false) :
    (l.step i allowance).1.distance < l.distance := by
  simp only [rests, Bool.or_eq_false_iff, decide_eq_false_iff_not] at hrests
  obtain ⟨hrunning, hgoing⟩ := hrests
  cases hphase : l.phase with
  | starting => simp [step, distance, hphase, write]
  | accepting =>
      have hcancelled := h.cancelled (by simp [isLeaving, hphase])
      simp [step, distance, hphase, hallowance, hcancelled, stop]
  | backingOff until_ =>
      have hcancelled := h.cancelled (by simp [isLeaving, hphase])
      simp [step, distance, hphase, hallowance, hcancelled]
  | stopping deadline failure =>
      simp only [step, hphase] at hgoing ⊢
      split
      · simp [distance, phase_finish, hphase]
      · next hover => simp [hover] at hgoing
  | stopped failure report => simp [hasStopped, hphase] at hrunning

/-- A listener that has been told to shut down rests only while it waits for workers. -/
theorem Told.stopping_of_rests (h : l.Told) (hrests : l.rests i = true) (hrunning : l.hasStopped = false) :
    ∃ deadline failure, l.phase = .stopping deadline failure ∧ i.now.nanos < deadline.nanos := by
  simp only [rests, hrunning, Bool.false_or, decide_eq_true_eq] at hrests
  cases hphase : l.phase with
  | starting => simp [step, hphase] at hrests
  | accepting =>
      have hcancelled := h.cancelled (by simp [isLeaving, hphase])
      simp [step, hphase, hcancelled, Execution.allowance] at hrests
  | backingOff until_ =>
      have hcancelled := h.cancelled (by simp [isLeaving, hphase])
      simp [step, hphase, hcancelled, Execution.allowance] at hrests
  | stopping deadline failure =>
      refine ⟨deadline, failure, rfl, ?_⟩
      by_contra hover
      simp [step, hphase, Nat.not_lt.mp hover] at hrests
  | stopped failure report => simp [hasStopped, hphase] at hrunning

/-- What a step leaves of the intake when nothing is accepted. -/
theorem Course.quiet {l' : Listener} {i' : Intake} (h : l.Course i none l' i') :
    i'.now = i.now ∧ i'.workers = i.workers ∧ i'.queue = i.queue ∧ (i.stopping = true → i'.stopping = true) := by
  cases h with
  | waits => exact ⟨rfl, rfl, rfl, id⟩
  | opens log phase => exact ⟨rfl, rfl, rfl, id⟩
  | told log phase cancelled => exact ⟨rfl, rfl, rfl, fun _ => rfl⟩
  | finishes deadline failure phase ended => exact ⟨rfl, rfl, rfl, id⟩

/-- A listener that has been told to shut down comes nearer to its end, and begins to wait for the workers at once. -/
structure Nearer (l l' : Listener) (now : Instant) : Prop where
  told : l'.Told
  distance : l'.distance ≤ l.distance
  leaving : l'.isLeaving = false → l.isLeaving = false
  stopping : ∀ deadline failure, l'.phase = .stopping deadline failure →
    l.phase = .stopping deadline failure ∨ (l.isLeaving = false ∧ deadline = now.plus l.options.shutdownGrace)

theorem Told.course (h : l.Told) {l' : Listener} {i' : Intake} (hcourse : l.Course i none l' i') :
    l.Nearer l' i.now := by
  cases hcourse with
  | waits => exact ⟨h, Nat.le_refl _, id, fun _ _ => Or.inl⟩
  | opens log phase =>
      have hgoing : l.isLeaving = false ∧ l.distance = 3 := by
        rcases phase with phase | ⟨until_, phase⟩
        · simp [isLeaving, Listener.distance, phase]
        · simp [isLeaving, Listener.distance, phase]
      exact ⟨Or.inl (h.cancelled hgoing.1), hgoing.2 ▸ Nat.le_succ 2, fun _ => hgoing.1, by simp⟩
  | told log phase cancelled =>
      have hgoing : l.isLeaving = false ∧ l.distance = 2 := by simp [isLeaving, Listener.distance, phase]
      refine ⟨Or.inr rfl, hgoing.2 ▸ Nat.le_succ 1, by simp [isLeaving, stop], fun _ failure hphase =>
        Or.inr ⟨hgoing.1, ?_⟩⟩
      exact (Phase.stopping.inj hphase).1.symm
  | finishes deadline failure phase ended =>
      have hphase := l.phase_finish i failure
      refine ⟨Or.inr ?_, ?_, fun hgoing => ?_, fun _ _ hstopping => ?_⟩
      · simp [isLeaving, hphase]
      · simp [Listener.distance, hphase]
      · simp [isLeaving, hphase] at hgoing
      · cases hphase.symm.trans hstopping

end Listener

namespace Site

variable {o : ListenerOptions} {qo : QueueOptions} {signal : Instant} {s t : Site} {m : Happening}

/-! ## The invariant -/

/-- What is so from the point of time `signal` on, at which the signal to shut down has been given. -/
structure Winding (o : ListenerOptions) (qo : QueueOptions) (signal : Instant) (s : Site) : Prop where
  orderly : s.Orderly o qo
  stopping : s.intake.stopping = true
  told : s.listener.Told
  deadline : ∀ deadline failure, s.listener.phase = .stopping deadline failure →
    deadline = signal.plus o.shutdownGrace ∧ s.intake.now.nanos ≤ deadline.nanos
  prompt : s.listener.isLeaving = false → s.intake.now = signal
  hand : ∀ w ∈ s.intake.workers, w.isHolding = true → s.intake.now = signal
  due : ∀ w ∈ s.intake.workers, ∀ v ∈ s.intake.queue.pending, w.ticket? = some v.ticket →
    v.deadline.nanos ≤ signal.nanos + qo.pushTimeout.nanos
  inTime : s.intake.workers ≠ [] → s.intake.now.nanos ≤ signal.nanos + qo.pushTimeout.nanos
  rejected : qo.backpressure = .reject → s.intake.workers ≠ [] → s.intake.now = signal

/-- A worker waits in a push into a full queue, and will have an answer before the limit is passed. -/
def Stuck (s : Site) (w : Worker) (limit : Instant) : Prop :=
  s.intake.queue.isFull = true ∧
    ∃ v ∈ s.intake.queue.waiting, w.phase = .pushing v.ticket ∧ v.deadline.nanos ≤ limit.nanos

theorem mem_tickets {i : Intake} {w : Worker} {n : Nat} (hw : w ∈ i.workers) (hn : w.ticket? = some n) :
    n ∈ i.tickets :=
  List.mem_filterMap.mpr ⟨w, hw, hn⟩

theorem Winding.stuck (h : s.Winding o qo signal) (hrests : s.rests = true) {w : Worker} (hw : w ∈ s.intake.workers) :
    s.Stuck w (signal.plus qo.pushTimeout) := by
  simp only [rests, Bool.and_eq_true, List.all_eq_true] at hrests
  obtain ⟨n, hphase, hnone⟩ := (Worker.rests_iff_waits h.stopping).mp (hrests.2 w hw)
  have hticket : w.ticket? = some n := by simp [Worker.ticket?, hphase]
  obtain ⟨v, hv, rfl⟩ := Stint.exists_waiting (h.orderly.queue.known n (mem_tickets hw hticket)) hnone
  exact ⟨h.orderly.queue.punctual.full (List.ne_nil_of_mem hv), v, hv, hphase,
    h.due w hw v (List.mem_append_right _ hv) hticket⟩

/-- A ticket in hand is that of an old push, whatever has been done to the queue. -/
theorem Winding.due_of_flow (h : s.Winding o qo signal) {q : Queue} {taken given : List Record}
    (hflow : s.intake.queue.Flow q taken given) {w : Worker} (hw : w ∈ s.intake.workers) {v : Waiter}
    (hv : v ∈ q.pending) (hticket : w.ticket? = some v.ticket) :
    v.deadline.nanos ≤ signal.nanos + qo.pushTimeout.nanos :=
  h.due w hw v (hflow.mem_of_lt hv (h.orderly.queue.lt_nextTicket (mem_tickets hw hticket))) hticket

theorem winding_of_now (horderly : s.Orderly o qo) (hstopping : s.intake.stopping = true) (htold : s.listener.Told)
    (hdeadline : ∀ deadline failure, s.listener.phase = .stopping deadline failure →
      deadline = s.intake.now.plus o.shutdownGrace) : s.Winding o qo s.intake.now := by
  refine ⟨horderly, hstopping, htold, fun deadline failure hphase => ?_, fun _ => rfl, fun _ _ _ => rfl,
    fun w _ v hv _ => horderly.queue.punctual.due v hv, fun _ => Nat.le_add_right _ _, fun _ _ => rfl⟩
  obtain rfl := hdeadline deadline failure hphase
  exact ⟨rfl, Nat.le_add_right _ _⟩

theorem hasStopped_of_going {l : Listener} (h : l.isLeaving = false) : l.hasStopped = false := by
  cases hphase : l.phase with
  | stopped failure report => simp [Listener.isLeaving, hphase] at h
  | _ => simp [Listener.hasStopped, hphase]

/-! ## What keeps it -/

/-- Steps leave the clock as it is. -/
theorem Winding.of_still (h : s.Winding o qo signal) (horderly : t.Orderly o qo) (hnow : t.intake.now = s.intake.now)
    (hstopping : t.intake.stopping = true) (htold : t.listener.Told)
    (hdeadline : ∀ deadline failure, t.listener.phase = .stopping deadline failure →
      deadline = signal.plus o.shutdownGrace ∧ s.intake.now.nanos ≤ deadline.nanos)
    (hprompt : t.listener.isLeaving = false → s.intake.now = signal)
    (hhand : ∀ w ∈ t.intake.workers, w.isHolding = true → s.intake.now = signal)
    (hdue : ∀ w ∈ t.intake.workers, ∀ v ∈ t.intake.queue.pending, w.ticket? = some v.ticket →
      v.deadline.nanos ≤ signal.nanos + qo.pushTimeout.nanos)
    (hfewer : t.intake.workers ≠ [] → s.intake.workers ≠ []) : t.Winding o qo signal := by
  refine ⟨horderly, hstopping, htold, ?_, ?_, ?_, hdue, fun hne => ?_, fun hreject hne => ?_⟩
  · rw [hnow]
    exact hdeadline
  · rw [hnow]
    exact hprompt
  · rw [hnow]
    exact hhand
  · rw [hnow]
    exact h.inTime (hfewer hne)
  · rw [hnow]
    exact h.rejected hreject (hfewer hne)

theorem Winding.aside (h : s.Winding o qo signal) (horderly : t.Orderly o qo) (haside : s.Aside t) :
    t.Winding o qo signal := by
  obtain ⟨taken, given, hflow⟩ := haside.flow
  refine h.of_still horderly haside.now ?_ ?_ ?_ ?_ ?_ ?_ ?_
  · rcases haside.stopping with hsame | ⟨hstopping, -⟩
    · exact hsame.trans h.stopping
    · exact hstopping
  · exact h.told.imp haside.cancelled fun hleaving => (isLeaving_congr haside.phase).trans hleaving
  · rw [haside.phase]
    exact h.deadline
  · rw [isLeaving_congr haside.phase]
    exact h.prompt
  · rw [haside.workers]
    exact h.hand
  · rw [haside.workers]
    exact fun w hw v hv hticket => h.due_of_flow hflow hw hv hticket
  · rw [haside.workers]
    exact id

theorem Winding.options (h : s.Winding o qo signal) : s.listener.options = o := by
  obtain ⟨as, hadmits⟩ := h.orderly.admits
  exact hadmits.options

theorem Winding.course (h : s.Winding o qo signal) (allowance : Nat) :
    s.listener.Course s.intake none (s.stepListener allowance).listener (s.stepListener allowance).intake := by
  have hcourse := Listener.course_step s.listener s.intake allowance
  rwa [h.told.receives] at hcourse

theorem Winding.stepListener (h : s.Winding o qo signal) (allowance : Nat) :
    (s.stepListener allowance).Winding o qo signal := by
  have horderly : (s.stepListener allowance).Orderly o qo :=
    h.orderly.happen (m := .own (.listener allowance)) rfl
  have hcourse := h.course allowance
  generalize s.stepListener allowance = t at *
  obtain ⟨hnow, hworkers, hqueue, hstopping⟩ := hcourse.quiet
  have hnearer := h.told.course hcourse
  refine h.of_still horderly hnow (hstopping h.stopping) hnearer.told (fun deadline failure hphase => ?_)
    (fun hgoing => h.prompt (hnearer.leaving hgoing)) ?_ ?_ ?_
  · rcases hnearer.stopping deadline failure hphase with hsame | ⟨hgoing, rfl⟩
    · exact h.deadline deadline failure hsame
    · rw [h.options, h.prompt hgoing]
      exact ⟨rfl, Nat.le_add_right _ _⟩
  · rw [hworkers]
    exact h.hand
  · rw [hworkers, hqueue]
    exact h.due
  · rw [hworkers]
    exact id

theorem exists_flow_step (w : Worker) (now : Instant) (stopping : Bool) (q : Queue) (allowance : Nat) :
    ∃ taken given, q.Flow (w.step now stopping q allowance).queue taken given := by
  rw [w.queue_step]
  cases w.operation now stopping q allowance with
  | none => exact ⟨_, _, .refl q⟩
  | some op =>
      obtain ⟨taken, hflow⟩ := q.flow_apply op
      exact ⟨_, _, hflow⟩

/-- What a step of a worker leaves: the worker or another one, and a queue with the pushes that the worker's step has
left. -/
theorem mem_workers_worked {w u : Worker} {turn : Worker.Turn} {ledger : Ledger} (h : Worked s w turn ledger t)
    (hu : u ∈ t.intake.workers) : turn.next.worker? = some u ∨ u ∈ s.intake.workers := by
  cases h with
  | left v next workers queue ledger listener =>
      rw [workers] at hu
      rcases Intake.mem_replace hu with rfl | ⟨hold, -⟩
      · exact Or.inl next
      · exact Or.inr hold
  | ended k next workers queue ledger listener =>
      rw [workers] at hu
      exact Or.inr (List.mem_filter.mp hu).1

theorem flow_worked {w : Worker} {turn : Worker.Turn} {ledger : Ledger} (h : Worked s w turn ledger t) :
    turn.queue.Flow t.intake.queue [] [] := by
  cases h with
  | left v next workers queue ledger listener =>
      rw [queue]
      exact .refl _
  | ended k next workers queue ledger listener =>
      rw [queue]
      exact turn.queue.flow_dropProducer

theorem told_worked {w : Worker} {turn : Worker.Turn} {ledger : Ledger} (h : Worked s w turn ledger t) :
    t.listener.cancelled = (s.listener.cancelled || turn.events.contains .signalled) := by
  cases h with
  | left v next workers queue ledger listener => rw [listener]
  | ended k next workers queue ledger listener => rw [listener]

theorem Winding.stepWorker (h : s.Winding o qo signal) {w : Worker} (hw : w ∈ s.intake.workers) (allowance : Nat) :
    (s.stepWorker w allowance).Winding o qo signal := by
  have horderly := h.orderly.stepWorker hw allowance
  have hphase := s.phase_stepWorker w allowance
  have hworked := s.worked_stepWorker w allowance
  have hdealing := w.dealing_step s.intake.now s.intake.stopping s.intake.queue allowance
  obtain ⟨hnow, hstopping⟩ := s.clock_stepWorker w allowance
  obtain ⟨taken, given, hturn⟩ := exists_flow_step w s.intake.now s.intake.stopping s.intake.queue allowance
  have hflow := hturn.trans_nil (flow_worked hworked)
  have hcancelled := told_worked hworked
  rw [h.stopping] at hworked hdealing hstopping
  generalize s.stepWorker w allowance = t at *
  refine h.of_still horderly hnow ?_ ?_ ?_ ?_ (fun u hu hholding => ?_) (fun u hu v hv hticket => ?_)
    fun _ => List.ne_nil_of_mem hw
  · rw [hstopping, Bool.true_or]
  · exact h.told.imp (fun htold => by rw [hcancelled, htold, Bool.true_or])
      fun hleaving => (isLeaving_congr hphase).trans hleaving
  · rw [hphase]
    exact h.deadline
  · rw [isLeaving_congr hphase]
    exact h.prompt
  · rcases mem_workers_worked hworked hu with hnext | hold
    · rcases Worker.nearer_step hnext with ⟨rfl, -⟩ | hnearer
      · exact h.hand u hw hholding
      · rw [Worker.distance_of_isHolding hholding] at hnearer
        exact absurd hnearer (Nat.not_lt.mpr w.distance_le)
    · exact h.hand u hold hholding
  · rcases mem_workers_worked hworked hu with hnext | hold
    · cases hdealing with
      | leaves queue ticket => exact h.due_of_flow hflow hw hv (ticket u hnext ▸ hticket)
      | pushes r result free hand push ticket => cases (ticket u hnext).symm.trans hticket
      | begins r n free hand push ticket =>
          -- A new push begins with the record that was in hand at the signal.
          have hdue := horderly.queue.punctual.due v hv
          rwa [hnow, h.hand w hw (hand rfl)] at hdue
      | resumes n result holds resume ticket => cases (ticket u hnext).symm.trans hticket
    · exact h.due_of_flow hflow hold hv hticket

theorem Winding.elapse (h : s.Winding o qo signal) {t : Instant} (hallows : s.allows (.own (.elapse t)) = true) :
    (s.step (.elapse t)).Winding o qo signal := by
  have horderly : (s.step (.elapse t)).Orderly o qo := h.orderly.happen hallows
  simp only [allows, Bool.and_eq_true, decide_eq_true_eq, List.all_eq_true] at hallows
  obtain ⟨⟨hrests, hle⟩, htimers⟩ := hallows
  have hstuck {w : Worker} (hw : w ∈ s.intake.workers) := h.stuck hrests hw
  have hlistener : s.listener.rests s.intake = true := by
    simp only [rests, Bool.and_eq_true] at hrests
    exact hrests.1
  refine ⟨horderly, h.stopping, h.told, fun deadline failure hphase => ⟨?_, ?_⟩,
    fun hgoing => ?_, fun w hw hholding => ?_, fun w hw v hv hticket => ?_, fun hne => ?_, fun hreject hne => ?_⟩
  · exact (h.deadline deadline failure hphase).1
  · refine htimers deadline ?_
    have hnext : s.listener.nextTime = some deadline := by
      rw [Listener.nextTime, show s.listener.phase = .stopping deadline failure from hphase]
    simp [timers, hnext]
  · change s.listener.isLeaving = false at hgoing
    obtain ⟨deadline, failure, hphase, -⟩ := h.told.stopping_of_rests hlistener (hasStopped_of_going hgoing)
    simp [Listener.isLeaving, hphase] at hgoing
  · obtain ⟨-, v, -, hphase, -⟩ := hstuck hw
    simp [Worker.isHolding, hphase] at hholding
  · exact h.due_of_flow (s.intake.queue.flow_expire t) hw hv hticket
  · obtain ⟨w, hw⟩ := List.exists_mem_of_ne_nil _ hne
    obtain ⟨-, v, hv, -, hdue⟩ := hstuck hw
    have hmem : v.deadline ∈ s.timers := List.mem_append_right _ (List.mem_map_of_mem hv)
    exact Nat.le_trans (htimers _ hmem) hdue
  · obtain ⟨w, hw⟩ := List.exists_mem_of_ne_nil _ hne
    obtain ⟨-, v, hv, -⟩ := hstuck hw
    cases hreject.symm.trans (h.orderly.queue.punctual.waits (List.ne_nil_of_mem hv))

theorem Winding.happen (h : s.Winding o qo signal) (hallows : s.allows m = true) :
    (s.happen m).Winding o qo signal := by
  cases s.passes m with
  | listener allowance => exact h.stepListener allowance
  | worker connection allowance w served =>
      rw [happen_of_served served]
      exact h.stepWorker (List.mem_of_find?_eq_some served) allowance
  | elapse t => exact h.elapse hallows
  | aside m haside idle => exact h.aside (h.orderly.happen hallows) haside

theorem Winding.after (h : s.Winding o qo signal) {hs : List Happening} (htimed : s.isTimed hs = true) :
    (s.after hs).Winding o qo signal := by
  induction hs generalizing s with
  | nil => exact h
  | cons m hs ih =>
      simp only [isTimed, Bool.and_eq_true] at htimed
      exact ih (h.happen htimed.1) htimed.2

/-! ## How it begins -/

theorem begins_of_course {l l' : Listener} {i i' : Intake} {got : Option LogIntake.Accepted} (h : l.Course i got l' i')
    (hbefore : i.stopping = false) (htold : i'.stopping = true) :
    i'.now = i.now ∧ ∃ failure, l'.phase = .stopping (i.now.plus l.options.shutdownGrace) failure := by
  cases h with
  | told log phase cancelled => exact ⟨rfl, none, rfl⟩
  | breaks cause rest log phase grave => exact ⟨rfl, some cause, rfl⟩
  | _ => cases hbefore.symm.trans htold

/-- The signal to shut down is given, or the listening socket fails. -/
theorem winding_of_signal (h : s.Orderly o qo) (hallows : s.allows m = true) (hbefore : s.intake.stopping = false)
    (htold : (s.happen m).intake.stopping = true) :
    (s.happen m).Winding o qo (s.happen m).intake.now ∧ (s.happen m).listener.hasStopped = false := by
  have horderly := h.happen hallows
  have hgoing : s.listener.isLeaving = false :=
    Bool.eq_false_iff.mpr fun hleaving => by cases hbefore.symm.trans (h.leaving hleaving)
  have hsame (hphase : (s.happen m).listener.phase = s.listener.phase)
      (hcancelled : (s.happen m).listener.cancelled = true) :
      (s.happen m).Winding o qo (s.happen m).intake.now ∧ (s.happen m).listener.hasStopped = false := by
    rw [← isLeaving_congr hphase] at hgoing
    refine ⟨winding_of_now horderly htold (Or.inl hcancelled) fun deadline failure hstopping => ?_,
      hasStopped_of_going hgoing⟩
    simp [Listener.isLeaving, hstopping] at hgoing
  cases s.passes m with
  | listener allowance =>
      obtain ⟨as, hadmits⟩ := h.admits
      obtain ⟨hnow, failure, hphase⟩ :=
        begins_of_course (Listener.course_step s.listener s.intake allowance) hbefore htold
      have hstopping : (s.stepListener allowance).listener.phase
          = .stopping ((s.stepListener allowance).intake.now.plus o.shutdownGrace) failure := by
        rw [← hadmits.options]
        exact hphase.trans (by rw [← hnow]; rfl)
      have hleaving : (s.stepListener allowance).listener.isLeaving = true := by simp [Listener.isLeaving, hstopping]
      refine ⟨winding_of_now horderly htold (Or.inr hleaving) fun deadline cause hcause => ?_, ?_⟩
      · exact (Listener.Phase.stopping.inj (hcause.symm.trans hstopping)).1
      · simp [Listener.hasStopped, Site.happen, step, hstopping]
  | worker connection allowance w served =>
      rw [happen_of_served served] at htold hsame ⊢
      refine hsame (s.phase_stepWorker w allowance) ?_
      rw [(s.clock_stepWorker w allowance).2] at htold
      have hsignalled := (Bool.or_eq_true_iff.mp htold).resolve_left (by simp [hbefore])
      rw [told_worked (s.worked_stepWorker w allowance), hsignalled, Bool.or_true]
  | elapse t => cases hbefore.symm.trans htold
  | aside m haside idle =>
      rcases haside.stopping with hstopping | ⟨-, hcancelled⟩
      · cases (hstopping.trans hbefore).symm.trans htold
      · exact hsame haside.phase hcancelled

end Site

end LogIntake
