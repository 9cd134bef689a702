import LogIntake.Proofs.Daemon.Execution
import LogIntake.Proofs.Site.Accepting

/-!
# Services and the handles they hold

A service that has been started holds a handle of the listener's task, the token that stops it, the address that is
listened on, and the counters. They are set when a start succeeds, and stop gives the task and the address away before
it waits for the task. How they belong together between two calls (`Lifecycle.Sound`) is kept by every call and by all
that goes on meanwhile.
-/

namespace LogIntake

namespace Listener

variable {l l' : Listener} {i i' : Intake} {got : Option Accepted}

theorem localAddress_of_course (h : l.Course i got l' i') : l'.localAddress = l.localAddress := by
  cases h with
  | finishes deadline failure phase ended =>
      unfold finish
      simp only
      split <;> rfl
  | _ => rfl

/-- What a listener keeps, whatever happens. -/
structure Lasts (l l' : Listener) : Prop where
  address : l'.localAddress = l.localAddress
  told : l.Told → l'.Told

theorem lasts_refl (held : Option Listener) : Option.Rel Lasts held held := by
  cases held with
  | none => exact .none
  | some l => exact .some ⟨rfl, id⟩

section

variable {first second third : Option Listener} (h : Option.Rel Lasts first second)

include h

theorem lasts_trans (h' : Option.Rel Lasts second third) : Option.Rel Lasts first third := by
  cases h with
  | none => exact h'
  | some h =>
      cases h' with
      | some h' => exact .some ⟨h'.address.trans h.address, h'.told ∘ h.told⟩

theorem isSome_of_lasts : second.isSome = first.isSome := by
  cases h <;> rfl

theorem localAddress_of_lasts : second.bind localAddress = first.bind localAddress := by
  cases h with
  | none => rfl
  | some h => exact h.address

end

end Listener

namespace Site

variable {s : Site}

theorem localAddress_occur (s : Site) (e : Event) : (s.occur e).listener.localAddress = s.listener.localAddress := by
  cases e with
  | arrive offer => rfl
  | listener allowance => exact Listener.localAddress_of_course (Listener.course_step s.listener s.intake allowance)
  | worker connection allowance =>
      simp only [occur, step]
      cases s.intake.worker? connection with
      | none => rfl
      | some w =>
          simp only [Option.elim_some]
          cases s.worked_stepWorker w allowance with
          | left v next workers queue ledger listener => rw [listener]
          | ended k next workers queue ledger listener => rw [listener]
  | elapse t => rfl

theorem lasts_occur (s : Site) (e : Event) : s.listener.Lasts (s.occur e).listener := by
  refine ⟨s.localAddress_occur e, fun h => ?_⟩
  cases e with
  | arrive offer => exact h
  | listener allowance => exact (told_step h (.listener allowance)).1
  | worker connection allowance => exact (told_step h (.worker connection allowance)).1
  | elapse t => exact (told_step h (.elapse t)).1

/-- A listener that has been told to shut down can stop at any time: it need not wait for longer than it may. -/
theorem exists_stopped (h : s.listener.Told) : ∃ events, (s.follow events).listener.hasStopped = true := by
  induction hdistance : s.listener.distance using Nat.strong_induction_on generalizing s with
  | _ n ih =>
      cases hstopped : s.listener.hasStopped with
      | true => exact ⟨[], hstopped⟩
      | false =>
          cases hrests : s.listener.rests s.intake with
          | false =>
              have hnearer := h.nearer Nat.one_ne_zero hrests
              obtain ⟨events, hevents⟩ :=
                ih _ (hdistance ▸ hnearer) (s := s.occur (.listener 1)) ((s.lasts_occur _).told h) rfl
              exact ⟨.listener 1 :: events, hevents⟩
          | true =>
              obtain ⟨deadline, failure, hphase, -⟩ := h.stopping_of_rests hrests hstopped
              refine ⟨[.elapse deadline, .listener 1], ?_⟩
              show ((s.listener.step (s.intake.elapse deadline) 1).1).hasStopped = true
              have hover : (s.intake.elapse deadline).workers.isEmpty ||
                  decide (deadline.nanos ≤ (s.intake.elapse deadline).now.nanos) := by simp [Intake.elapse]
              rw [Listener.step, hphase]
              simp only [hover, if_true, Listener.hasStopped, Listener.phase_finish]

end Site

/-- A service with the handles that it holds. Its runs are numbered from 1 on. -/
structure Lifecycle where
  service : Service
  /-- How many runs have begun. -/
  runs : Nat := 0
  /-- The run whose listener the token stops. No run has the token that a service is built with. -/
  token : Nat := 0
  /-- The run whose task is held. -/
  task : Option Nat := none
  address : Option SocketAddress := none
  /-- The run whose counters are held. -/
  stats : Option Nat := none
  /-- What is told of the task of the latest run if it has broken down. -/
  broken : Option String := none
  deriving DecidableEq, Repr

namespace Lifecycle

/-! ## What goes on -/

/-- What happens without a call. -/
inductive Happening where
  | event (e : Site.Event)
  /-- A user of the queue does something to it. -/
  | queue (op : Queue.Operation)
  /-- The listener's task breaks down. -/
  | breakDown (message : String)
  deriving DecidableEq, Repr

/-- How the task of a run has ended, if it has. -/
def outcome? (l : Lifecycle) (run : Nat) : Option (Except Fault ListenerReport) :=
  if run = l.runs then
    match l.broken with
    | some message => some (.error (.lifecycle (.failed message)))
    | none => (l.service.listener.bind Listener.result?).map (·.mapError IntakeError.toFault)
  else none

def occur (l : Lifecycle) (e : Site.Event) : Lifecycle :=
  match l.service.site? with
  | some s => { l with service := l.service.withSite (s.occur e) }
  | none => l

def happen (l : Lifecycle) : Happening → Lifecycle
  | .event (.listener allowance) => if l.broken.isSome then l else l.occur (.listener allowance)
  | .event e => l.occur e
  | .queue op => { l with service.intake.queue := l.service.intake.queue.apply op }
  | .breakDown message =>
    if l.runs = 0 ∨ (l.outcome? l.runs).isSome then l else { l with broken := some message }

def goOn (l : Lifecycle) (hs : List Happening) : Lifecycle :=
  hs.foldl happen l

/-! ## Calls -/

def start (l : Lifecycle) (bound : Except IoError SocketAddress) : Lifecycle × Except Fault Unit :=
  match l.service.start bound with
  | (service, .error e) => ({ l with service }, .error e)
  | (service, .ok ()) =>
    let run := l.runs + 1
    let address := service.listener.bind Listener.localAddress
    ({ service, runs := run, token := run, task := some run, address, stats := some run }, .ok ())

/-- What stop does before it waits: the token is used, and the task and the address are given away. -/
def tell (l : Lifecycle) : Lifecycle :=
  let service := match l.service.site? with
    | some s => if l.token = l.runs then l.service.withSite s.stop else l.service
    | none => l.service
  { l with service := { service with state := .stopped }, task := none, address := none }

/-- What stop does when the task that it has waited for has ended. -/
def join (l : Lifecycle) (run : Nat) : Option (Lifecycle × Except Fault Unit) :=
  (l.outcome? run).map fun
    | .ok report => ({ l with service.report := some report }, .ok ())
    | .error e => (l, .error e)

/-- Stops the service, and what happens meanwhile. There is no answer if the task has not ended by then. -/
def stop (l : Lifecycle) (meanwhile : List Happening) : Option (Lifecycle × Except Fault Unit) :=
  if l.service.state = .running then
    match l.task with
    | some run => (l.tell.goOn meanwhile).join run
    | none => some (l.tell, .ok ())
  else some (l, .error (.lifecycle .notRunning))

/-- Whether a task is held that has not ended. -/
def isLive (l : Lifecycle) : Bool :=
  l.task.any fun run => (l.outcome? run).isNone

def health (l : Lifecycle) : Health :=
  match l.service.state with
  | .initialized => .unhealthy "not started"
  | .stopped => .unhealthy "stopped"
  | .running =>
    if l.isLive then
      if Service.isCrowded l.service.intake.queue then
        .degraded s!"queue utilization high: {Service.percentage l.service.intake.queue}%"
      else .healthy
    else .unhealthy "listener task exited"

inductive Move where
  | start (bound : Except IoError SocketAddress)
  | stop (meanwhile : List Happening)
  | goesOn (h : Happening)
  deriving DecidableEq, Repr

/-- Calls come one after the other: there is nothing after a stop that does not answer. -/
def step (l : Lifecycle) : Move → Option Lifecycle
  | .start bound => some (l.start bound).1
  | .stop meanwhile => (l.stop meanwhile).map (·.1)
  | .goesOn h => some (l.happen h)

def run (l : Lifecycle) : List Move → Option Lifecycle
  | [] => some l
  | m :: moves => (l.step m).bind fun next => next.run moves

/-! ## What calls leave meanwhile -/

/-- Without a call only the listener of the latest run goes on, with what it shares, and its task may break down. -/
def Goes (l l' : Lifecycle) : Prop :=
  ∃ listener intake broken, l' = { l with service := { l.service with listener, intake }, broken } ∧
    Option.Rel Listener.Lasts l.service.listener listener

variable {l l' : Lifecycle}

theorem goes_refl (l : Lifecycle) : l.Goes l :=
  ⟨l.service.listener, l.service.intake, l.broken, rfl, Listener.lasts_refl _⟩

theorem Goes.trans {l'' : Lifecycle} (h : l.Goes l') (h' : l'.Goes l'') : l.Goes l'' := by
  obtain ⟨listener, intake, broken, rfl, hlasts⟩ := h
  obtain ⟨listener', intake', broken', rfl, hlasts'⟩ := h'
  exact ⟨listener', intake', broken', rfl, Listener.lasts_trans hlasts hlasts'⟩

theorem goes_occur (l : Lifecycle) (e : Site.Event) : l.Goes (l.occur e) := by
  unfold occur
  split
  · next s hs =>
      obtain ⟨m, hm, rfl⟩ := Option.map_eq_some_iff.mp hs
      refine ⟨_, _, _, rfl, ?_⟩
      rw [hm]
      exact .some (Site.lasts_occur { listener := m, intake := l.service.intake } e)
  · exact l.goes_refl

theorem goes_happen (l : Lifecycle) (h : Happening) : l.Goes (l.happen h) := by
  cases h with
  | event e =>
      cases e with
      | listener allowance =>
          simp only [happen]
          split
          · exact l.goes_refl
          · exact l.goes_occur _
      | _ => exact l.goes_occur _
  | queue op => exact ⟨_, _, _, rfl, Listener.lasts_refl _⟩
  | breakDown message =>
      simp only [happen]
      split
      · exact l.goes_refl
      · exact ⟨_, _, _, rfl, Listener.lasts_refl _⟩

theorem goes_goOn (l : Lifecycle) (hs : List Happening) : l.Goes (l.goOn hs) := by
  induction hs generalizing l with
  | nil => exact l.goes_refl
  | cons h hs ih => exact (l.goes_happen h).trans (ih _)

/-! ## The invariant -/

/-- The handles that are held are those of the latest run, and none but its counters is held when it is over. -/
structure Sound (l : Lifecycle) : Prop where
  valid : l.service.options.listener.validate = .ok ()
  token : l.token = l.runs
  task : l.task = if l.service.state = .running then some l.runs else none
  address : l.address = l.service.address?
  stats : l.stats = if l.runs = 0 then none else some l.runs
  listener : l.service.listener.isSome = true ↔ l.runs ≠ 0
  running : l.service.state = .running → l.runs ≠ 0

theorem sound_build {o : ServiceOptions} {service : Service} (h : Service.build o = .ok service) :
    Sound { service } := by
  have hvalid : o.listener.validate = .ok () := by
    unfold Service.build at h
    cases hlistener : o.listener.validate with
    | error e =>
        rw [hlistener] at h
        cases h
    | ok _ => rfl
  obtain rfl := Daemon.Course.of_build h
  exact ⟨hvalid, rfl, rfl, rfl, rfl, by simp, nofun⟩

theorem Sound.goes (h : l.Sound) (hgoes : l.Goes l') : l'.Sound := by
  obtain ⟨listener, intake, broken, rfl, hlasts⟩ := hgoes
  refine ⟨h.valid, h.token, h.task, ?_, h.stats, ?_, h.running⟩
  · rw [h.address, Service.address?, Service.address?, Listener.localAddress_of_lasts hlasts]
  · show listener.isSome = true ↔ l.runs ≠ 0
    rw [Listener.isSome_of_lasts hlasts]
    exact h.listener

theorem start_cases (l : Lifecycle) (bound : Except IoError SocketAddress) :
    (∃ e, l.start bound = (l, .error e)) ∨
      (l.service.state ≠ .running ∧ ∃ address, bound = .ok address ∧ l.start bound =
        ({ service := l.service.begin address, runs := l.runs + 1, token := l.runs + 1, task := some (l.runs + 1),
           address := some address, stats := some (l.runs + 1) }, .ok ())) := by
  unfold Lifecycle.start
  rcases l.service.start_cases bound with ⟨e, hfailed⟩ | ⟨hstate, address, hbound, hbegun⟩
  · rw [hfailed]
    exact Or.inl ⟨e, rfl⟩
  · rw [hbegun]
    exact Or.inr ⟨hstate, address, hbound, rfl⟩

theorem Sound.start (h : l.Sound) (bound : Except IoError SocketAddress) : (l.start bound).1.Sound := by
  rcases l.start_cases bound with ⟨e, hfailed⟩ | ⟨-, address, -, hbegun⟩
  · rw [hfailed]
    exact h
  · rw [hbegun]
    exact ⟨h.valid, rfl, rfl, rfl, rfl, by simp [Service.begin], fun _ => Nat.succ_ne_zero _⟩

theorem Sound.start_ok_iff (h : l.Sound) (bound : Except IoError SocketAddress) :
    (l.start bound).2 = .ok () ↔ l.service.state ≠ .running ∧ ∃ address, bound = .ok address := by
  constructor
  · rcases l.start_cases bound with ⟨e, hfailed⟩ | ⟨hstate, address, hbound, -⟩
    · rw [hfailed]
      nofun
    · exact fun _ => ⟨hstate, address, hbound⟩
  · rintro ⟨hstate, address, rfl⟩
    unfold Lifecycle.start Service.start
    rw [if_neg hstate, h.valid]

/-! ## Stopping -/

theorem Sound.exists_listener (h : l.Sound) (hstate : l.service.state = .running) :
    ∃ m, l.service.listener = some m :=
  Option.isSome_iff_exists.mp (h.listener.mpr (h.running hstate))

theorem Sound.tell_eq (h : l.Sound) {m : Listener} (hm : l.service.listener = some m) :
    l.tell =
      { l with
        service := { l.service with state := .stopped }.withSite
          (Site.stop { listener := m, intake := l.service.intake })
        task := none
        address := none } := by
  unfold tell Service.site?
  rw [hm, Option.map_some]
  simp only [h.token, if_true]
  rfl

theorem Sound.tell (h : l.Sound) (hstate : l.service.state = .running) : l.tell.Sound := by
  obtain ⟨m, hm⟩ := h.exists_listener hstate
  rw [h.tell_eq hm]
  exact ⟨h.valid, h.token, rfl, rfl, h.stats, ⟨fun _ => h.running hstate, fun _ => rfl⟩, nofun⟩

theorem stop_of_not_running (hstate : l.service.state ≠ .running) (meanwhile : List Happening) :
    l.stop meanwhile = some (l, .error (.lifecycle .notRunning)) :=
  if_neg hstate

theorem Sound.stop_of_running (h : l.Sound) (hstate : l.service.state = .running) (meanwhile : List Happening) :
    l.stop meanwhile = (l.tell.goOn meanwhile).join l.runs := by
  unfold Lifecycle.stop
  rw [if_pos hstate, h.task, if_pos hstate]

/-- The report is that of the task if it has ended well, and the answer says how it has ended. -/
theorem join_eq (l : Lifecycle) (run : Nat) : l.join run = (l.outcome? run).map fun outcome =>
    ({ l with service.report := outcome.toOption.or l.service.report }, outcome.map fun _ => ()) := by
  unfold join
  cases l.outcome? run with
  | none => rfl
  | some outcome =>
      cases outcome with
      | ok report => rfl
      | error e => rfl

theorem Sound.stop (h : l.Sound) {meanwhile : List Happening} {t : Lifecycle} {result : Except Fault Unit}
    (hstop : l.stop meanwhile = some (t, result)) : t.Sound := by
  by_cases hstate : l.service.state = .running
  · rw [h.stop_of_running hstate, join_eq] at hstop
    obtain ⟨outcome, -, hjoined⟩ := Option.map_eq_some_iff.mp hstop
    cases hjoined
    have htold := (h.tell hstate).goes (l.tell.goes_goOn meanwhile)
    exact ⟨htold.valid, htold.token, htold.task, htold.address, htold.stats, htold.listener, htold.running⟩
  · rw [stop_of_not_running hstate] at hstop
    cases hstop
    exact h

/-! ## How a task ends -/

theorem goOn_append (l : Lifecycle) (hs more : List Happening) : l.goOn (hs ++ more) = (l.goOn hs).goOn more :=
  List.foldl_append ..

theorem Goes.runs (h : l.Goes l') : l'.runs = l.runs := by
  obtain ⟨listener, intake, broken, rfl, -⟩ := h
  rfl

theorem outcome?_of_unbroken (hbroken : l.broken = none) :
    l.outcome? l.runs = (l.service.listener.bind Listener.result?).map (·.mapError IntakeError.toFault) := by
  rw [outcome?, if_pos rfl, hbroken]

theorem outcome?_of_broken {message : String} (hbroken : l.broken = some message) :
    l.outcome? l.runs = some (.error (.lifecycle (.failed message))) := by
  rw [outcome?, if_pos rfl, hbroken]

/-- The task of the latest run ends well, with the listening socket, or by breaking down. -/
theorem outcome?_cases {outcome : Except Fault ListenerReport} (h : l.outcome? l.runs = some outcome) :
    (∃ report, l.broken = none ∧ l.service.listener.bind Listener.result? = some (.ok report) ∧
        outcome = .ok report) ∨
      (∃ cause, l.broken = none ∧ l.service.listener.bind Listener.result? = some (.error (.listener cause)) ∧
        outcome = .error (.lifecycle (.failed (IntakeError.listener cause).message))) ∨
      ∃ message, l.broken = some message ∧ outcome = .error (.lifecycle (.failed message)) := by
  cases hbroken : l.broken with
  | some message =>
      rw [outcome?_of_broken hbroken] at h
      exact Or.inr (Or.inr ⟨message, rfl, (Option.some.inj h).symm⟩)
  | none =>
      rw [outcome?_of_unbroken hbroken] at h
      obtain ⟨result, hresult, rfl⟩ := Option.map_eq_some_iff.mp h
      obtain ⟨m, -, hm⟩ := Option.bind_eq_some_iff.mp hresult
      rcases Listener.ending?_of_result hm with ⟨report, rfl, -⟩ | ⟨cause, rfl, -⟩
      · exact Or.inl ⟨report, rfl, hresult, rfl⟩
      · exact Or.inr (Or.inl ⟨cause, rfl, hresult, rfl⟩)

/-- As long as its task has not broken down, a service goes on as its site does. -/
theorem goOn_events (service : Service) (s : Site) (hservice : l.service = service.withSite s)
    (hbroken : l.broken = none) (events : List Site.Event) :
    l.goOn (events.map .event) = { l with service := service.withSite (s.follow events) } := by
  induction events generalizing l s with
  | nil =>
      show l = { l with service := service.withSite s }
      rw [← hservice]
  | cons e events ih =>
      have hnext : l.happen (.event e) = { l with service := service.withSite (s.occur e) } := by
        have hoccurs : l.happen (.event e) = l.occur e := by
          cases e with
          | listener allowance => exact if_neg (by simp [hbroken])
          | _ => rfl
        obtain ⟨t, hsite, hoccur⟩ := service.exists_site s
        rw [hoccurs, occur, hservice, hsite]
        simp only [hoccur]
      show (l.happen (.event e)).goOn (events.map .event) = _
      rw [hnext]
      exact ih (l := { l with service := service.withSite (s.occur e) }) (s.occur e) rfl hbroken

/-- The task ends by breaking down, or it can end as soon as its listener has been told to shut down. -/
theorem exists_ended {m : Listener} (hm : l.service.listener = some m) (htold : m.Told) :
    ∃ more, ((l.goOn more).outcome? l.runs).isSome = true := by
  cases hbroken : l.broken with
  | some message =>
      refine ⟨[], ?_⟩
      show (l.outcome? l.runs).isSome = true
      rw [outcome?_of_broken hbroken]
      rfl
  | none =>
      let s : Site := { listener := m, intake := l.service.intake }
      obtain ⟨events, hstopped⟩ := Site.exists_stopped (s := s) htold
      have hservice : l.service = l.service.withSite s := by
        show l.service = { l.service with listener := some m }
        rw [← hm]
      refine ⟨events.map .event, ?_⟩
      rw [goOn_events l.service s hservice hbroken events,
        outcome?_of_unbroken (l := { l with service := l.service.withSite (s.follow events) }) hbroken,
        Option.isSome_map]
      exact (Listener.isSome_result? _).trans hstopped

/-- A stop can answer, whatever has happened since it was called. -/
theorem Sound.exists_stop (h : l.Sound) (hstate : l.service.state = .running) (sofar : List Happening) :
    ∃ more, (l.stop (sofar ++ more)).isSome = true := by
  obtain ⟨m, hm⟩ := h.exists_listener hstate
  obtain ⟨listener, intake, broken, hsofar, hlasts⟩ := l.tell.goes_goOn sofar
  rw [h.tell_eq hm] at hlasts
  cases hlasts with
  | @some _ m' hlasts =>
      have hm' : (l.tell.goOn sofar).service.listener = some m' := by rw [hsofar]
      obtain ⟨more, hended⟩ := exists_ended hm' (hlasts.told (Or.inl rfl))
      have hruns : (l.tell.goOn sofar).runs = l.runs := (l.tell.goes_goOn sofar).runs
      refine ⟨more, ?_⟩
      rw [h.stop_of_running hstate, goOn_append, join, Option.isSome_map, ← hruns]
      exact hended

/-! ## What a service itself answers -/

theorem health_isUnhealthy (l : Lifecycle) :
    l.health.isUnhealthy = false ↔ l.service.state = .running ∧ l.isLive = true := by
  unfold health
  cases l.service.state with
  | initialized => simp [Health.isUnhealthy]
  | stopped => simp [Health.isUnhealthy]
  | running =>
      cases l.isLive with
      | false => simp [Health.isUnhealthy]
      | true =>
          simp only [if_true, and_self, iff_true]
          split <;> rfl

/-- Where no task has broken down, a service fares as it says itself. -/
theorem Sound.health_eq (h : l.Sound) (hbroken : l.broken = none) : l.health = l.service.health := by
  have hlive (hstate : l.service.state = .running) : l.isLive = l.service.listener.any (!·.hasStopped) := by
    obtain ⟨m, hm⟩ := h.exists_listener hstate
    rw [isLive, h.task, if_pos hstate, Option.any_some, outcome?_of_unbroken hbroken, hm, Option.bind_some,
      Option.isNone_map, Option.any_some, ← Listener.isSome_result?, Option.not_isSome]
  unfold health Service.health
  cases hstate : l.service.state with
  | initialized => rfl
  | stopped => rfl
  | running =>
      simp only
      rw [hlive hstate]

/-- The task ends as its listener has, or breaks down by then. -/
theorem exists_outcome {m : Listener} (hbroken : l.broken = none) (hruns : l.runs ≠ 0)
    (hm : l.service.listener = some m) :
    ∃ more broken, l.goOn more = { l with broken } ∧
      (l.goOn more).outcome? l.runs = some (Daemon.Course.outcomeOf m) := by
  have houtcome := outcome?_of_unbroken hbroken
  rw [hm, Option.bind_some] at houtcome
  unfold Daemon.Course.outcomeOf
  cases hresult : m.result? with
  | some result =>
      rw [hresult] at houtcome
      exact ⟨[], l.broken, rfl, houtcome⟩
  | none =>
      rw [hresult] at houtcome
      let failed : Lifecycle := { l with broken := some "listener task failed" }
      have hbroke : l.goOn [.breakDown "listener task failed"] = failed := if_neg (by simp [hruns, houtcome])
      refine ⟨[.breakDown "listener task failed"], _, hbroke, ?_⟩
      rw [hbroke]
      exact outcome?_of_broken (l := failed) rfl

/-- What a service does at once when it is stopped can happen while a stop waits. -/
theorem Sound.exists_stop_eq (h : l.Sound) (hstate : l.service.state = .running) (hbroken : l.broken = none) :
    ∃ meanwhile t, l.stop meanwhile = some (t, l.service.stop.2) ∧ t.service = l.service.stop.1 := by
  obtain ⟨m, hm⟩ := h.exists_listener hstate
  let s : Site := { listener := m, intake := l.service.intake }
  have hruns : s.Runs { intake := l.service.intake, listener := some m } := ⟨rfl, rfl, rfl, rfl⟩
  obtain ⟨events, hended⟩ := hruns.stop.complete rfl
  have hstop := Daemon.Course.stop_of_runs hstate hm hended
  let service : Service := { l.service with state := .stopped }
  let told : Lifecycle := { l with service := service.withSite s.stop, task := none, address := none }
  let gone : Lifecycle := { told with service := service.withSite (s.stop.follow events) }
  have htold : l.tell = told := h.tell_eq hm
  have hgone : told.goOn (events.map .event) = gone := goOn_events (l := told) service s.stop rfl hbroken events
  obtain ⟨more, broken, hmore, houtcome⟩ := exists_outcome (l := gone) hbroken (h.running hstate) rfl
  refine ⟨events.map .event ++ more, { gone with service := l.service.stop.1, broken }, ?_, rfl⟩
  rw [h.stop_of_running hstate, goOn_append, htold, hgone, join_eq, houtcome, hmore, hstop]
  rfl

/-- What a stop has answered, by how the task that it has waited for has ended. The report `before` gives way to that
of the run only if the task has ended well. -/
inductive Stopped (before : Option ListenerReport) (t : Lifecycle) : Except Fault Unit → Prop where
  | well (report : ListenerReport) (unbroken : t.broken = none)
      (ended : t.service.listener.bind Listener.result? = some (.ok report))
      (stored : t.service.report = some report) : Stopped before t (.ok ())
  | failed (cause : IoError) (unbroken : t.broken = none)
      (ended : t.service.listener.bind Listener.result? = some (.error (.listener cause)))
      (kept : t.service.report = before) :
      Stopped before t (.error (.lifecycle (.failed (IntakeError.listener cause).message)))
  | broke (message : String) (broken : t.broken = some message) (kept : t.service.report = before) :
      Stopped before t (.error (.lifecycle (.failed message)))

theorem Stopped.kept {before : Option ListenerReport} {t : Lifecycle} {e : Fault}
    (h : Stopped before t (.error e)) : t.service.report = before := by
  cases h with
  | failed cause unbroken ended kept => exact kept
  | broke message broken kept => exact kept

theorem Sound.stop_answers (h : l.Sound) (hstate : l.service.state = .running) {meanwhile : List Happening}
    {t : Lifecycle} {result : Except Fault Unit} (hstop : l.stop meanwhile = some (t, result)) :
    t.service.state = .stopped ∧ l.task = some t.runs ∧ Stopped l.service.report t result := by
  have htold : (l.tell.goOn meanwhile).runs = l.runs ∧ (l.tell.goOn meanwhile).service.state = .stopped ∧
      (l.tell.goOn meanwhile).service.report = l.service.report := by
    obtain ⟨m, hm⟩ := h.exists_listener hstate
    obtain ⟨listener, intake, broken, hgoes, -⟩ := l.tell.goes_goOn meanwhile
    rw [hgoes, h.tell_eq hm]
    exact ⟨rfl, rfl, rfl⟩
  rw [h.stop_of_running hstate, join_eq] at hstop
  rw [h.task, if_pos hstate]
  generalize l.tell.goOn meanwhile = told at htold hstop
  obtain ⟨hruns, hstopped, hreport⟩ := htold
  rw [← hruns] at hstop ⊢
  obtain ⟨outcome, houtcome, hjoined⟩ := Option.map_eq_some_iff.mp hstop
  cases hjoined
  refine ⟨hstopped, rfl, ?_⟩
  rcases outcome?_cases houtcome with ⟨report, hbroken, hresult, rfl⟩ | ⟨cause, hbroken, hresult, rfl⟩ |
    ⟨message, hbroken, rfl⟩
  · exact .well report hbroken hresult rfl
  · exact .failed cause hbroken hresult hreport
  · exact .broke message hbroken hreport

/-! ## Runs -/

theorem Sound.step (h : l.Sound) {m : Move} (hstep : l.step m = some l') : l'.Sound := by
  cases m with
  | start bound =>
      cases hstep
      exact h.start bound
  | stop meanwhile =>
      obtain ⟨⟨t, result⟩, hstop, rfl⟩ := Option.map_eq_some_iff.mp hstep
      exact h.stop hstop
  | goesOn happening =>
      cases hstep
      exact h.goes (l.goes_happen happening)

theorem Sound.run (h : l.Sound) {moves : List Move} (hrun : l.run moves = some l') : l'.Sound := by
  induction moves generalizing l with
  | nil =>
      cases hrun
      exact h
  | cons m moves ih =>
      obtain ⟨next, hstep, hnext⟩ := Option.bind_eq_some_iff.mp hrun
      exact ih (h.step hstep) hnext

/-- One of the moves is a start that succeeds. -/
def Starts (l : Lifecycle) (moves : List Move) : Prop :=
  ∃ before bound k, before ++ [.start bound] <+: moves ∧ l.run before = some k ∧ (k.start bound).2 = .ok ()

theorem starts_cons_iff {m : Move} {moves : List Move} (hstep : l.step m = some l') :
    l.Starts (m :: moves) ↔ (∃ bound, m = .start bound ∧ (l.start bound).2 = .ok ()) ∨ l'.Starts moves := by
  constructor
  · rintro ⟨before, bound, k, hbefore, hk, hstarted⟩
    cases before with
    | nil =>
        cases hk
        exact Or.inl ⟨bound, (List.cons_prefix_cons.mp hbefore).1.symm, hstarted⟩
    | cons first before =>
        obtain ⟨rfl, hrest⟩ := List.cons_prefix_cons.mp hbefore
        obtain ⟨next, hnext, hk⟩ := Option.bind_eq_some_iff.mp hk
        obtain rfl := Option.some.inj (hstep.symm.trans hnext)
        exact Or.inr ⟨before, bound, k, hrest, hk, hstarted⟩
  · rintro (⟨bound, rfl, hstarted⟩ | ⟨before, bound, k, hbefore, hk, hstarted⟩)
    · exact ⟨[], bound, l, List.cons_prefix_cons.mpr ⟨rfl, List.nil_prefix⟩, rfl, hstarted⟩
    · refine ⟨m :: before, bound, k, List.cons_prefix_cons.mpr ⟨rfl, hbefore⟩, ?_, hstarted⟩
      rw [Lifecycle.run, hstep]
      exact hk

theorem Goes.stats (h : l.Goes l') : l'.stats = l.stats := by
  obtain ⟨listener, intake, broken, rfl, -⟩ := h
  rfl

/-- Counters are held since a start has succeeded. -/
theorem stats_step {m : Move} (hstep : l.step m = some l') :
    l'.stats.isSome = true ↔ l.stats.isSome = true ∨ ∃ bound, m = .start bound ∧ (l.start bound).2 = .ok () := by
  cases m with
  | start bound =>
      cases hstep
      rcases l.start_cases bound with ⟨e, hfailed⟩ | ⟨-, address, -, hbegun⟩
      · simp [hfailed]
      · simp [hbegun]
  | stop meanwhile =>
      have hsame : l'.stats = l.stats := by
        obtain ⟨⟨t, result⟩, hstop, rfl⟩ := Option.map_eq_some_iff.mp hstep
        unfold Lifecycle.stop at hstop
        split at hstop
        · split at hstop
          · next run _ =>
              rw [join_eq] at hstop
              obtain ⟨outcome, -, hjoined⟩ := Option.map_eq_some_iff.mp hstop
              cases hjoined
              exact (l.tell.goes_goOn meanwhile).stats
          · cases hstop
            rfl
        · cases hstop
          rfl
      simp [hsame]
  | goesOn happening =>
      cases hstep
      simp [(l.goes_happen happening).stats]

theorem stats_run {moves : List Move} (hrun : l.run moves = some l') :
    l'.stats.isSome = true ↔ l.stats.isSome = true ∨ l.Starts moves := by
  induction moves generalizing l with
  | nil =>
      cases hrun
      refine ⟨Or.inl, fun h => h.resolve_right ?_⟩
      rintro ⟨before, bound, k, hbefore, -⟩
      simp at hbefore
  | cons m moves ih =>
      obtain ⟨next, hstep, hnext⟩ := Option.bind_eq_some_iff.mp hrun
      rw [ih hnext, stats_step hstep, starts_cons_iff hstep, or_assoc]

/-- A service has been built, and it is started and stopped at will while its listener's task goes on, and may end, of
itself. Between calls it holds a task if and only if it runs, it has an address only then, and it holds counters if and
only if a start has succeeded. A start succeeds if and only if the service does not run and the socket can be bound;
otherwise it changes nothing. A stop of a service that does not run changes nothing. Any other can answer, whatever has
happened by then, and the service is stopped: with the report of the run if the task has ended well, and with the
report before if it has not. The service is unhealthy unless it runs and its task has not ended. Its address, and
whether it has counters, are what it tells itself. As long as no task has broken down it fares as it says, and what it
does at once when it is stopped is one of the things that a stop can do. -/
theorem holds_together {o : ServiceOptions} {service : Service} (hbuilt : Service.build o = .ok service)
    {moves : List Move} {l : Lifecycle} (hrun : ({ service } : Lifecycle).run moves = some l) :
    (l.service.state = .running ↔ l.task.isSome = true) ∧
      (l.address.isSome = true → l.service.state = .running) ∧
      (l.stats.isSome = true ↔ ({ service } : Lifecycle).Starts moves) ∧
      (∀ bound,
        ((l.start bound).2 = .ok () ↔ l.service.state ≠ .running ∧ ∃ address, bound = .ok address) ∧
          ∀ e, (l.start bound).2 = .error e → (l.start bound).1 = l) ∧
      (∀ meanwhile, l.stop meanwhile = some (l, .error (.lifecycle .notRunning)) ↔ l.service.state ≠ .running) ∧
      (l.service.state = .running →
        (∀ sofar, ∃ more, (l.stop (sofar ++ more)).isSome = true) ∧
          ∀ meanwhile t result, l.stop meanwhile = some (t, result) →
            t.service.state = .stopped ∧ l.task = some t.runs ∧ Stopped l.service.report t result) ∧
      (l.health.isUnhealthy = false ↔ l.service.state = .running ∧ l.isLive = true) ∧
      l.address = l.service.address? ∧
      l.stats.isSome = l.service.stats?.isSome ∧
      (l.broken = none →
        l.health = l.service.health ∧
          (l.service.state = .running →
            ∃ meanwhile t, l.stop meanwhile = some (t, l.service.stop.2) ∧ t.service = l.service.stop.1)) := by
  have h : l.Sound := (sound_build hbuilt).run hrun
  refine ⟨?_, fun haddress => ?_, ?_, fun bound => ⟨h.start_ok_iff bound, fun e hfailed => ?_⟩,
    fun meanwhile => ⟨fun hstop hstate => ?_, fun hstate => stop_of_not_running hstate meanwhile⟩,
    fun hstate => ⟨h.exists_stop hstate, fun meanwhile t result => h.stop_answers hstate⟩,
    l.health_isUnhealthy, h.address, ?_,
    fun hbroken => ⟨h.health_eq hbroken, fun hstate => h.exists_stop_eq hstate hbroken⟩⟩
  · rw [h.task]
    split
    · next hstate => simp [hstate]
    · next hstate => simp [hstate]
  · rw [h.address, Service.address?] at haddress
    by_contra hstate
    rw [if_neg hstate] at haddress
    cases haddress
  · rw [stats_run hrun]
    simp
  · rcases l.start_cases bound with ⟨e', hsame⟩ | ⟨-, address, -, hbegun⟩
    · rw [hsame]
    · rw [hbegun] at hfailed
      cases hfailed
  · have hstopped := (h.stop_answers hstate hstop).1
    cases hstate.symm.trans hstopped
  · rw [h.stats, Service.stats?, Option.isSome_map]
    by_cases hruns : l.runs = 0
    · rw [if_pos hruns]
      exact (Bool.eq_false_iff.mpr fun hheld => h.listener.mp hheld hruns).symm
    · rw [if_neg hruns]
      exact (h.listener.mpr hruns).symm

/-- A service whose port is taken at first. Its first run is stopped well; in its second run the socket fails. -/
def restarted : List Move :=
  let address : SocketAddress := .v4 ⟨127, 0, 0, 1⟩ 5140
  let turn : Happening := .event (.listener 1)
  [.start (.error (.os 98)), .start (.ok address), .stop [turn, turn, turn], .start (.ok address),
    .goesOn (.event (.arrive ⟨⟨0⟩, .failed (.os 22)⟩)), .goesOn turn, .goesOn turn, .goesOn turn]

theorem holds_together_restarted :
    let service : Service := { options := {}, intake := { queue := .start {} } }
    let failure : Fault := .lifecycle (.failed (IntakeError.listener (.os 22)).message)
    Service.build {} = .ok service ∧
      ∃ l, ({ service } : Lifecycle).run restarted = some l ∧ ({ service } : Lifecycle).Starts restarted ∧
        l.task = some 2 ∧ l.service.state = .running ∧ l.health = .unhealthy "listener task exited" ∧
        ∃ t, l.stop [] = some (t, .error failure) ∧ t.service.state = .stopped ∧
          t.service.report = l.service.report ∧ t.service.report.map (·.accepted) = some 0 := by
  intro service failure
  have hbuilt : Service.build {} = .ok service := by decide +kernel
  have hends : (({ service } : Lifecycle).run restarted).any (fun l => decide (l.task = some 2 ∧ l.stats = some 2 ∧
      l.health = .unhealthy "listener task exited" ∧ l.service.report.map (·.accepted) = some 0 ∧
      (l.stop []).map (·.2) = some (.error failure))) = true := by decide +kernel
  obtain ⟨l, hrun, hl⟩ := (Option.any_eq_true _ _).mp hends
  obtain ⟨htask, hstats, hhealth, hreport, hstop⟩ := of_decide_eq_true hl
  obtain ⟨⟨t, result⟩, ht, rfl⟩ := Option.map_eq_some_iff.mp hstop
  obtain ⟨hheld, -, hstarts, -, -, hstops, -⟩ := holds_together hbuilt hrun
  have hstate : l.service.state = .running := hheld.mpr (by rw [htask]; rfl)
  obtain ⟨hstopped, -, hanswer⟩ := (hstops hstate).2 [] t _ ht
  exact ⟨hbuilt, l, hrun, hstarts.mp (by rw [hstats]; rfl), htask, hstate, hhealth, t, ht, hstopped, hanswer.kept,
    hanswer.kept ▸ hreport⟩

end Lifecycle

end LogIntake
