import LogIntake.Proofs.Settings.Building

/-!
# What becomes of a service that is built

The queue of a service is a channel with a permit for each place, and a listener has a semaphore with a permit for each
connection. Neither can have more than `maxPermits`: whoever asks for more is not refused, the process ends
(`Construction.aborted`). The options of a listener are bounded by what a semaphore can have when they are judged. Those
of a queue are not, so that a service can be aborted that no check has refused; the settings as they are written have a
bound for the queue that is far lower, but nothing demands that they have been judged.
-/

namespace LogIntake

/-- How the making of something ends. -/
inductive Construction (α : Type) where
  | made (result : α)
  | refused (error : IntakeError)
  /-- The process ends. -/
  | aborted

/-- The permits of a new semaphore; there is none with more than it can count. -/
def semaphore? (permits : Nat) : Option Nat :=
  if permits ≤ maxPermits then some permits else none

/-- The places of a new channel, each with a permit; there is none without a place. -/
def channel? (places : Nat) : Option Nat :=
  if places = 0 then none else semaphore? places

/-- A queue on a new channel. -/
def Queue.open? (o : QueueOptions) : Option Queue :=
  (channel? (Queue.start o).capacity).map fun _ => .start o

/-- The permits with which a listener counts its connections. -/
def ListenerOptions.slots? (o : ListenerOptions) : Option Nat :=
  semaphore? o.maxConnections

/-- A service with the channel of its queue. -/
def Service.construct (o : ServiceOptions) : Construction Service :=
  match Service.build o with
  | .error e => .refused e
  | .ok service =>
    match Queue.open? o.queue with
    | none => .aborted
    | some queue => .made { service with intake.queue := queue }

/-- The service that settings describe, whether these have been judged before or not. -/
def Settings.construct (s : Settings) : Construction Service :=
  match ServiceOptions.ofSettings s with
  | .error e => .refused e
  | .ok o => Service.construct o

/-! ## Refusals -/

/-- What is refused is refused for one of the options. -/
def RefusesOptions {α : Type} (r : Except IntakeError α) : Prop :=
  ∀ e, r = .error e → ∃ field reason, e = .setting field reason

namespace RefusesOptions

variable {α β : Type} {r : Except IntakeError α}

theorem ok (a : α) : RefusesOptions (.ok a) :=
  fun _ h => nomatch h

theorem setting (field reason : String) : RefusesOptions (.error (.setting field reason) : Except IntakeError α) :=
  fun _ h => ⟨field, reason, (Except.error.inj h).symm⟩

theorem of_require (met : Bool) (field reason : String) : RefusesOptions (require met field reason) := by
  cases met with
  | true => exact ok ()
  | false => exact setting field reason

theorem bind {f : α → Except IntakeError β} (h : RefusesOptions r) (hf : ∀ a, RefusesOptions (f a)) :
    RefusesOptions (r >>= f) := by
  cases r with
  | error e => exact fun e' he => h e' (congrArg _ (Except.error.inj he))
  | ok a => exact hf a

end RefusesOptions

theorem WorkerOptions.refuses_validate (o : WorkerOptions) : RefusesOptions o.validate :=
  .bind (.of_require _ _ _) fun _ => .bind (.of_require _ _ _) fun _ => .of_require _ _ _

theorem ListenerOptions.refuses_validate (o : ListenerOptions) : RefusesOptions o.validate :=
  .bind (.of_require _ _ _) fun _ => .bind (.of_require _ _ _) fun _ => .bind (.of_require _ _ _) fun _ =>
    o.worker.refuses_validate

theorem QueueOptions.refuses_validate (o : QueueOptions) : RefusesOptions o.validate :=
  .bind (.of_require _ _ _) fun _ => .of_require _ _ _

theorem Framing.refuses_parse (name : String) : RefusesOptions (Framing.parse name) := by
  unfold Framing.parse
  split
  · exact .ok _
  · exact .setting _ _

theorem DecodeErrorPolicy.refuses_parse (name : String) : RefusesOptions (DecodeErrorPolicy.parse name) := by
  unfold DecodeErrorPolicy.parse
  split
  · exact .ok _
  · exact .setting _ _

theorem Backpressure.refuses_parse (name : String) : RefusesOptions (Backpressure.parse name) := by
  unfold Backpressure.parse
  split
  · exact .ok _
  · exact .setting _ _

theorem ServiceOptions.refuses_ofSettings (s : Settings) : RefusesOptions (ServiceOptions.ofSettings s) := by
  have hlistener : RefusesOptions (ListenerOptions.ofSettings s.ingest) :=
    .bind (Framing.refuses_parse _) fun _ => .bind (DecodeErrorPolicy.refuses_parse _) fun _ =>
      .bind (ListenerOptions.refuses_validate _) fun _ => .ok _
  have hqueue : RefusesOptions (QueueOptions.ofSettings s.queue) :=
    .bind (Backpressure.refuses_parse _) fun _ => .bind (QueueOptions.refuses_validate _) fun _ => .ok _
  exact .bind hlistener fun _ => .bind hqueue fun _ => .ok _

theorem Service.refuses_build (o : ServiceOptions) : RefusesOptions (Service.build o) :=
  .bind o.listener.refuses_validate fun _ => .bind o.queue.refuses_validate fun _ => .ok _

/-! ## What has been accepted -/

theorem exists_of_bind_eq_ok {ε α β : Type} {r : Except ε α} {f : α → Except ε β} {b : β} (h : r >>= f = .ok b) :
    ∃ a, r = .ok a ∧ f a = .ok b := by
  cases r with
  | error e => cases h
  | ok a => exact ⟨a, rfl, h⟩

/-- The options of a listener are accepted only if a semaphore can count its connections. -/
theorem ListenerOptions.maxConnections_le_of_validate {o : ListenerOptions} (h : o.validate = .ok ()) :
    o.maxConnections ≤ maxPermits := by
  obtain ⟨_, -, h⟩ := exists_of_bind_eq_ok h
  obtain ⟨_, -, h⟩ := exists_of_bind_eq_ok h
  obtain ⟨_, hconnections, -⟩ := exists_of_bind_eq_ok h
  rw [require_eq_ok_iff, Bool.and_eq_true] at hconnections
  exact of_decide_eq_true hconnections.2

theorem QueueOptions.capacity_of_ofSettings {s : Settings.Queue} {o : QueueOptions} (h : ofSettings s = .ok o) :
    o.capacity = s.capacity.toNat := by
  obtain ⟨_, -, h⟩ := exists_of_bind_eq_ok h
  obtain ⟨_, -, h⟩ := exists_of_bind_eq_ok h
  rw [← Except.ok.inj h]

theorem ServiceOptions.capacity_of_ofSettings {s : Settings} {o : ServiceOptions} (h : ofSettings s = .ok o) :
    o.queue.capacity = s.queue.capacity.toNat := by
  obtain ⟨_, -, h⟩ := exists_of_bind_eq_ok h
  obtain ⟨queue, hqueue, h⟩ := exists_of_bind_eq_ok h
  rw [← Except.ok.inj h]
  exact QueueOptions.capacity_of_ofSettings hqueue

theorem Service.queue_of_build {o : ServiceOptions} {v : Service} (h : build o = .ok v) :
    v.intake.queue = .start o.queue := by
  obtain ⟨_, -, h⟩ := exists_of_bind_eq_ok h
  obtain ⟨_, -, h⟩ := exists_of_bind_eq_ok h
  rw [← Except.ok.inj h]

/-! ## Permits -/

theorem isSome_semaphore? {permits : Nat} : (semaphore? permits).isSome ↔ permits ≤ maxPermits := by
  unfold semaphore?
  split
  · next hle => simp [hle]
  · next hlt => simp [hlt]

/-- A queue has a place whatever is asked for, so that only too many can be wrong. -/
theorem Queue.open?_eq (o : QueueOptions) :
    Queue.open? o = if o.capacity ≤ maxPermits then some (.start o) else none := by
  have hplace : (Queue.start o).capacity ≠ 0 := by simp only [Queue.start]; omega
  have hone : 1 ≤ maxPermits := by decide
  have hmax : (Queue.start o).capacity ≤ maxPermits ↔ o.capacity ≤ maxPermits :=
    Nat.max_le.trans (and_iff_right hone)
  simp only [Queue.open?, channel?, if_neg hplace, semaphore?, hmax]
  split <;> rfl

/-- What is built is made, unless its queue is to be larger than a channel can be. -/
theorem Service.construct_eq (o : ServiceOptions) :
    Service.construct o =
      match Service.build o with
      | .error e => .refused e
      | .ok v => if o.queue.capacity ≤ maxPermits then .made v else .aborted := by
  unfold construct
  cases hbuild : build o with
  | error e => rfl
  | ok v =>
      simp only [Queue.open?_eq, ← queue_of_build hbuild]
      by_cases hle : o.queue.capacity ≤ maxPermits
      · simp only [if_pos hle]
      · simp only [if_neg hle]

namespace Settings

variable {s : Settings}

theorem construct_eq (s : Settings) :
    s.construct =
      match s.service with
      | .error e => .refused e
      | .ok v => if s.queue.capacity.toNat ≤ maxPermits then .made v else .aborted := by
  unfold construct service
  cases hoptions : ServiceOptions.ofSettings s with
  | error e => rfl
  | ok o =>
      simp only [Service.construct_eq, ServiceOptions.capacity_of_ofSettings hoptions]
      rfl

theorem refuses_service (s : Settings) : RefusesOptions s.service :=
  .bind (ServiceOptions.refuses_ofSettings s) Service.refuses_build

/-- The bound for the queue in valid settings leaves a channel far behind. -/
theorem Valid.capacity_le (h : s.Valid) : s.queue.capacity.toNat ≤ maxPermits :=
  Nat.le_trans h.capacity.2 (by decide)

/-- A service is made or one of its options is refused, whether the settings have been judged or not, as long as its
queue asks for no more places than a channel can have; with more the process ends, unless something else is refused
first. Valid settings do not ask for so many. A listener whose options are accepted has no more connections than a
semaphore can count, but the options of a queue are accepted with any number of places. -/
theorem construct_within_limit (s : Settings) (listener : ListenerOptions) (queue : QueueOptions) :
    (s.queue.capacity.toNat ≤ maxPermits →
      (∃ v, s.construct = .made v ∧ s.service = .ok v) ∨
        ∃ field reason, s.construct = .refused (.setting field reason) ∧
          s.service = .error (.setting field reason)) ∧
      (s.construct = .aborted ↔ maxPermits < s.queue.capacity.toNat ∧ ∃ v, s.service = .ok v) ∧
      (s.validate = .ok () → s.construct ≠ .aborted) ∧
      (listener.validate = .ok () → listener.slots?.isSome) ∧
      (queue.validate = .ok () → ((Queue.open? queue).isSome ↔ queue.capacity ≤ maxPermits)) := by
  have haborted : s.construct = .aborted ↔ maxPermits < s.queue.capacity.toNat ∧ ∃ v, s.service = .ok v := by
    rw [construct_eq]
    cases s.service with
    | error e => simp
    | ok v => by_cases hle : s.queue.capacity.toNat ≤ maxPermits <;> simp [hle, Nat.lt_of_not_le]
  refine ⟨fun hle => ?_, haborted, fun hvalid h => ?_, fun hvalid => ?_, fun _ => ?_⟩
  · rw [construct_eq]
    cases hservice : s.service with
    | error e =>
        obtain ⟨field, reason, rfl⟩ := s.refuses_service e hservice
        exact .inr ⟨field, reason, rfl, rfl⟩
    | ok v => exact .inl ⟨v, if_pos hle, rfl⟩
  · exact Nat.not_lt.mpr (validate_eq_ok_iff.mp hvalid).capacity_le (haborted.mp h).1
  · exact isSome_semaphore?.mpr (ListenerOptions.maxConnections_le_of_validate hvalid)
  · rw [Queue.open?_eq]
    split
    · next hle => simp [hle]
    · next hlt => simp [hlt]

/-- One place more than a channel can have: every check on the way to the service accepts it, and the process ends. -/
theorem aborted_unchecked :
    let s : Settings := { queue.capacity := 2305843009213693952 }
    let queue : QueueOptions := { capacity := 2305843009213693952 }
    QueueOptions.ofSettings s.queue = .ok queue ∧ queue.validate = .ok () ∧ Queue.open? queue = none ∧
      (∃ v, s.service = .ok v) ∧ s.construct = .aborted := by
  refine ⟨rfl, rfl, rfl, ?_, ?_⟩
  · exact ⟨_, rfl⟩
  · rfl

end Settings

end LogIntake
