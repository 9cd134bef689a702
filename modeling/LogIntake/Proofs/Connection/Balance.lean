import LogIntake.Intake
import LogIntake.Proofs.Connection.Stint
import LogIntake.Proofs.Queue.Counting

/-!
# What a step of a worker adds up to

What a worker will tell of its connection, what others observe of it and what the queue counts are records of the
same thing, kept in different places. Each step adds the same to all of them.
-/

namespace LogIntake

/-- How the push failed that has ended a connection. -/
def Closing.failure? (k : Closing) : Option PushFailure :=
  match k.error with
  | some (.queue e) => some e.failure
  | _ => none

namespace Worker

/-! ## Steps -/

/-- A turn adds the same to what the worker will tell, to what others observe and to what the queue counts. -/
structure Turn.Balanced (t : Turn) (w : Worker) (q : Queue) : Prop where
  pushed : t.queue.metrics.count .pushed = q.metrics.count .pushed + t.events.count .delivered
  failures (f : PushFailure) : t.queue.metrics.count (.pushFailures f)
    = q.metrics.count (.pushFailures f) + if t.next.closing?.bind Closing.failure? = some f then 1 else 0
  within : q.metrics.Within Counter.ofQueue .queueDepth → t.queue.metrics.Within Counter.ofQueue .queueDepth
  going : ∀ v, t.next.worker? = some v → v.connection = w.connection ∧ v.peer = w.peer ∧ v.options = w.options ∧
    v.records = w.records + t.events.count .delivered ∧
    v.malformed = w.malformed + (t.events.filterMap Event.unit?).length
  ended : ∀ k, t.next.closing? = some k → k.summary.connection = w.connection ∧ k.summary.peer = w.peer ∧
    k.summary.records = w.records + t.events.count .delivered ∧
    k.summary.malformed = w.malformed + (t.events.filterMap Event.unit?).length ∧
    (k.summary.reason = .queue ↔ k.failure?.isSome)

/-- The reader of a worker has no part in the balance. -/
theorem Turn.Balanced.of_reader {t : Turn} {w : Worker} {reader : Reader} {q : Queue}
    (h : t.Balanced { w with reader } q) : t.Balanced w q :=
  ⟨h.pushed, h.failures, h.within, h.going, h.ended⟩

/-- Events that tell of no record and no malformed unit. -/
def Quiet (events : List Event) : Prop :=
  events.count .delivered = 0 ∧ events.filterMap Event.unit? = []

variable {w : Worker} {q : Queue} {events : List Event} {allowance : Nat}

/-- A turn that pushes nothing and finds nothing malformed. -/
theorem balanced_quiet {t : Turn} (hqueue : t.queue = q) (hevents : Quiet t.events)
    (hgoing : ∀ v, t.next.worker? = some v → v.connection = w.connection ∧ v.peer = w.peer ∧ v.options = w.options ∧
      v.records = w.records ∧ v.malformed = w.malformed)
    (hended : ∀ k, t.next.closing? = some k → k.failure? = none ∧ ∃ reason error reader, reason ≠ .queue ∧
      Next.ended k = { w with reader }.close reason error) : t.Balanced w q := by
  obtain ⟨hdelivered, hunits⟩ := hevents
  refine ⟨?_, fun f => ?_, ?_, fun v hv => ?_, fun k hk => ?_⟩
  · rw [hqueue, hdelivered]
    rfl
  · have hnone : t.next.closing?.bind Closing.failure? = none := by
      cases hk : t.next.closing? with
      | none => rfl
      | some k => exact (hended k hk).1
    rw [hqueue, hnone]
    rfl
  · rw [hqueue]
    exact id
  · rw [hdelivered, hunits]
    exact hgoing v hv
  · obtain ⟨hnone, reason, error, reader, hreason, hclose⟩ := hended k hk
    obtain rfl := Next.ended.inj hclose
    rw [hdelivered, hunits, hnone]
    exact ⟨rfl, rfl, rfl, rfl, iff_of_false hreason Bool.noConfusion⟩

theorem balanced_going {t : Turn} (reader : Reader) (phase : Phase) (hqueue : t.queue = q) (hevents : Quiet t.events)
    (hnext : t.next.worker? = some { w with reader, phase }) : t.Balanced w q := by
  refine balanced_quiet hqueue hevents (fun v hv => ?_) fun k hk => ?_
  · rw [hnext] at hv
    obtain rfl := Option.some.inj hv
    exact ⟨rfl, rfl, rfl, rfl, rfl⟩
  · cases hend : t.next with
    | ended closing => rw [hend] at hnext; cases hnext
    | _ => rw [hend] at hk; cases hk

theorem balanced_ended {t : Turn} (reader : Reader) {reason : CloseReason} {error : Option IntakeError}
    (hqueue : t.queue = q) (hevents : Quiet t.events) (hnext : t.next = { w with reader }.close reason error)
    (hreason : reason ≠ .queue) (herror : ∀ e, error ≠ some (.queue e)) : t.Balanced w q := by
  refine balanced_quiet hqueue hevents (fun v hv => ?_) fun k hk => ?_
  · rw [hnext] at hv
    cases hv
  · rw [hnext] at hk
    obtain rfl := Option.some.inj hk
    refine ⟨?_, reason, error, reader, hreason, rfl⟩
    cases error with
    | none => rfl
    | some error =>
        cases error with
        | queue e => exact absurd rfl (herror e)
        | _ => rfl

theorem balanced_afterPush {q' : Queue} {result : PushResult} (hqueue : q.Counted q' (some result))
    (hevents : Quiet events) : (w.afterPush q' events allowance result).Balanced w q := by
  obtain ⟨hdelivered, hunits⟩ := hevents
  cases result with
  | taken =>
      have hone : (events ++ [Event.delivered]).count .delivered = 1 := by
        rw [List.count_append, hdelivered]
        rfl
      have hnone : (events ++ [Event.delivered]).filterMap Event.unit? = [] := by
        rw [List.filterMap_append, hunits]
        rfl
      refine ⟨?_, hqueue.failures, hqueue.within, fun v hv => ?_, fun k hk => nomatch hk⟩
      · show q'.metrics.count .pushed = _ + (events ++ [Event.delivered]).count .delivered
        rw [hone, hqueue.pushed, if_pos rfl]
      · obtain rfl := Option.some.inj hv
        show _ ∧ _ ∧ _ ∧ w.records + 1 = w.records + (events ++ [Event.delivered]).count .delivered ∧
          w.malformed = w.malformed + ((events ++ [Event.delivered]).filterMap Event.unit?).length
        rw [hone, hnone]
        exact ⟨rfl, rfl, rfl, rfl, rfl⟩
  | failed e =>
      refine ⟨?_, hqueue.failures, hqueue.within, (fun v hv => nomatch hv), fun k hk => ?_⟩
      · show q'.metrics.count .pushed = _ + events.count .delivered
        rw [hdelivered, hqueue.pushed]
        rfl
      · obtain rfl := Option.some.inj hk
        show _ ∧ _ ∧ w.records = w.records + events.count .delivered ∧
          w.malformed = w.malformed + (events.filterMap Event.unit?).length ∧ _
        rw [hdelivered, hunits]
        exact ⟨rfl, rfl, rfl, rfl, iff_of_true rfl rfl⟩

theorem balanced_handleRecord (now : Instant) (payload : Bytes) (hevents : Quiet events) :
    (w.handleRecord now q events allowance payload).Balanced w q := by
  unfold handleRecord
  split
  · exact balanced_going w.reader (.holding payload) rfl hevents rfl
  · have hcounted := q.counted_push now ⟨payload, w.peer, w.connection, w.records⟩
    split
    · next q' result hpush =>
        rw [hpush] at hcounted
        exact balanced_afterPush hcounted hevents
    · next q' ticket hpush =>
        rw [hpush] at hcounted
        obtain ⟨hdelivered, hunits⟩ := hevents
        refine ⟨?_, hcounted.failures, hcounted.within, fun v hv => ?_, fun k hk => nomatch hk⟩
        · rw [hdelivered]
          exact hcounted.pushed
        · obtain rfl := Option.some.inj hv
          rw [hdelivered, hunits]
          exact ⟨rfl, rfl, rfl, rfl, rfl⟩

theorem balanced_handleMalformed (unit : Malformed) (hevents : Quiet events) :
    (w.handleMalformed q events allowance unit).Balanced w q := by
  obtain ⟨hdelivered, hunits⟩ := hevents
  have hcount (more : List Event) (hmore : more.count .delivered = 0) : (events ++ more).count .delivered = 0 := by
    rw [List.count_append, hdelivered, hmore]
  have hunit (more : List Event) (hmore : more.filterMap Event.unit? = [unit]) :
      (events ++ more).filterMap Event.unit? = [unit] := by
    rw [List.filterMap_append, hunits, hmore]
    rfl
  unfold handleMalformed
  simp only
  split
  · refine ⟨?_, fun f => rfl, id, fun v hv => ?_, fun k hk => nomatch hk⟩
    · rw [hcount _ rfl]
      rfl
    · obtain rfl := Option.some.inj hv
      rw [hcount _ rfl, hunit _ rfl]
      exact ⟨rfl, rfl, rfl, rfl, rfl⟩
  · refine ⟨?_, fun f => rfl, id, (fun v hv => nomatch hv), fun k hk => ?_⟩
    · rw [hcount _ rfl]
      rfl
    · obtain rfl := Option.some.inj hk
      rw [hcount _ rfl, hunit _ rfl]
      exact ⟨rfl, rfl, rfl, rfl, iff_of_false CloseReason.noConfusion Bool.noConfusion⟩

theorem balanced_await (reader : Reader) (now deadline : Instant) (hevents : Quiet events) {next : Worker → Next}
    (hnext : ∀ v, (next v).worker? = some v) :
    ({ w with reader }.await now deadline q events allowance next).Balanced w q := by
  unfold await
  split
  · exact balanced_ended reader rfl hevents rfl CloseReason.noConfusion (fun e h => nomatch h)
  · exact balanced_going reader (.waiting deadline) rfl hevents (hnext _)

theorem balanced_takeFrame (now deadline : Instant) (allowance : Nat) :
    (w.takeFrame now deadline q allowance).Balanced w q := by
  unfold takeFrame
  generalize w.reader.next now (w.newest? q) allowance = result
  have hevents : Quiet (if result.signalled then [Event.signalled] else []) := by
    cases result.signalled with
    | true => exact ⟨rfl, rfl⟩
    | false => exact ⟨rfl, rfl⟩
  simp only
  generalize (if result.signalled then [Event.signalled] else []) = events at *
  split
  · exact .of_reader (balanced_handleRecord now _ hevents)
  · exact .of_reader (balanced_handleMalformed _ hevents)
  · exact balanced_ended result.reader rfl hevents rfl CloseReason.noConfusion (fun e h => nomatch h)
  · exact balanced_ended result.reader rfl hevents rfl CloseReason.noConfusion (fun e h => nomatch h)
  · exact balanced_ended result.reader rfl hevents rfl CloseReason.noConfusion (fun e h => nomatch h)
  · exact balanced_await result.reader now deadline hevents fun _ => rfl
  · exact balanced_await result.reader now deadline hevents fun _ => rfl

theorem balanced_begin (now deadline : Instant) (stopping : Bool) (allowance : Nat) :
    (w.begin now deadline stopping q allowance).Balanced w q := by
  unfold begin
  split
  · exact balanced_going w.reader w.phase rfl ⟨rfl, rfl⟩ rfl
  · split
    · exact balanced_ended w.reader rfl ⟨rfl, rfl⟩ rfl CloseReason.noConfusion (fun e h => nomatch h)
    · exact balanced_takeFrame now deadline allowance

theorem balanced_step (w : Worker) (now : Instant) (stopping : Bool) (q : Queue) (allowance : Nat) :
    (w.step now stopping q allowance).Balanced w q := by
  unfold Worker.step
  split
  · exact balanced_going w.reader .ready rfl ⟨rfl, rfl⟩ rfl
  · exact balanced_begin now _ stopping allowance
  · exact balanced_begin now _ stopping allowance
  · exact balanced_handleRecord now _ ⟨rfl, rfl⟩
  · next ticket _ =>
      have hcounted := q.counted_resume ticket
      split
      · next q' result hresume =>
          rw [hresume] at hcounted
          exact balanced_afterPush hcounted ⟨rfl, rfl⟩
      · exact balanced_going w.reader w.phase rfl ⟨rfl, rfl⟩ rfl

end Worker

/-! ## What others observe -/

/-- What the events of a worker have added to a ledger. -/
structure Ledger.Observed (l : Ledger) (w : Worker) (events : List Worker.Event) (l' : Ledger) : Prop where
  count (c : Counter) : l'.metrics.count c = l.metrics.count c
    + (if c = .decoded w.options.framing then events.count .delivered else 0)
    + (if c = .decodeErrors w.options.framing then (events.filterMap Worker.Event.unit?).length else 0)
  gauges : l'.metrics.gauges = l.metrics.gauges
  within : l.metrics.Within (!·.ofQueue) .activeConnections → l'.metrics.Within (!·.ofQueue) .activeConnections
  decodeErrors : l'.decodeErrors
    = l.decodeErrors ++ (events.filterMap Worker.Event.unit?).map fun unit => (w.peer, unit)
  closings : l'.closings = l.closings

theorem Ledger.observed_foldl (w : Worker) (events : List Worker.Event) (l : Ledger) :
    l.Observed w events (events.foldl (fun l e => l.observe w e) l) := by
  induction events generalizing l with
  | nil => exact ⟨fun c => by simp, rfl, id, (List.append_nil _).symm, rfl⟩
  | cons e events ih =>
      have h := ih (l.observe w e)
      cases e with
      | delivered =>
          refine ⟨fun c => ?_, h.gauges, fun hl => h.within (hl.add rfl 1), h.decodeErrors, h.closings⟩
          have hone : (l.observe w .delivered).metrics.count c
              = l.metrics.count c + if c = .decoded w.options.framing then 1 else 0 := Metrics.count_add ..
          rw [List.foldl_cons, h.count, hone, List.count_cons_self, List.filterMap_cons_none rfl]
          split <;> omega
      | malformed unit =>
          have hunits : (Worker.Event.malformed unit :: events).filterMap Worker.Event.unit?
              = unit :: events.filterMap Worker.Event.unit? := rfl
          refine ⟨fun c => ?_, h.gauges, fun hl => h.within (hl.add rfl 1), ?_, h.closings⟩
          · have hone : (l.observe w (.malformed unit)).metrics.count c
                = l.metrics.count c + if c = .decodeErrors w.options.framing then 1 else 0 := Metrics.count_add ..
            rw [List.foldl_cons, h.count, hone, hunits, List.count_cons_of_ne (by simp), List.length_cons]
            by_cases hc : c = .decodeErrors w.options.framing
            · simp only [hc, if_true]
              omega
            · simp only [hc, if_false]
              omega
          · rw [List.foldl_cons, h.decodeErrors, hunits, List.map_cons]
            exact List.append_assoc ..
      | started => exact ⟨h.count, h.gauges, h.within, h.decodeErrors, h.closings⟩
      | dropped => exact ⟨h.count, h.gauges, h.within, h.decodeErrors, h.closings⟩
      | signalled => exact ⟨h.count, h.gauges, h.within, h.decodeErrors, h.closings⟩

end LogIntake
