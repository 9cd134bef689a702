import LogIntake.Proofs.Metrics
import LogIntake.Proofs.Queue.Watch

/-!
# What a queue counts

A queue counts the results of pushes and the records that have been taken out, and its gauge is set from both sides: by
a push to the number of places that are taken or granted, and by the consumer to the number of records that are left.
The two differ while a place is granted to a push that has not gone on yet; but such a push goes on, and sets the gauge
again. So when no push can go on the gauge is right, whoever has set it (`reckoned_at_rest`).
-/

namespace LogIntake

def PushResult.failure? : PushResult → Option PushFailure
  | .taken => none
  | .failed e => some e.failure

namespace Queue

/-! ## Results of pushes -/

/-- The queue has counted the result of one more push, or none. -/
structure Counted (q q' : Queue) (result : Option PushResult) : Prop where
  pushed : q'.metrics.count .pushed = q.metrics.count .pushed + if result = some .taken then 1 else 0
  failures (f : PushFailure) : q'.metrics.count (.pushFailures f)
    = q.metrics.count (.pushFailures f) + if result.bind PushResult.failure? = some f then 1 else 0
  within : q.metrics.Within Counter.ofQueue .queueDepth → q'.metrics.Within Counter.ofQueue .queueDepth

theorem counted_of_eq {q q' : Queue} (h : q'.metrics = q.metrics) : q.Counted q' none := by
  refine ⟨?_, fun f => ?_, ?_⟩
  · rw [h]; rfl
  · rw [h]; rfl
  · rw [h]; exact id

/-- One counter has gone up, and the gauge has been set. -/
theorem counted_of_add {q q' : Queue} {result : Option PushResult} {c : Counter} {n depth : Nat}
    (h : q'.metrics = (q.metrics.add c n).set .queueDepth depth) (hqueue : c.ofQueue = true)
    (hpushed : (if .pushed = c then n else 0) = if result = some .taken then 1 else 0)
    (hfailures : ∀ f, (if .pushFailures f = c then n else 0)
      = if result.bind PushResult.failure? = some f then 1 else 0) : q.Counted q' result := by
  refine ⟨?_, fun f => ?_, fun hwithin => ?_⟩
  · rw [h, Metrics.count_set, Metrics.count_add, hpushed]
  · rw [h, Metrics.count_set, Metrics.count_add, hfailures]
  · rw [h]
    exact (hwithin.add hqueue n).set depth

theorem counted_report {q q' : Queue} (h : q'.metrics = q.metrics) (result : PushResult) :
    q.Counted (q'.report result) (some result) := by
  cases result with
  | taken =>
      have hmetrics : (q'.report .taken).metrics = (q.metrics.add .pushed 1).set .queueDepth q'.occupied := by
        rw [← h]
        rfl
      exact counted_of_add hmetrics rfl rfl fun f => rfl
  | failed e =>
      have hmetrics : (q'.report (.failed e)).metrics
          = (q.metrics.add (.pushFailures e.failure) 1).set .queueDepth q'.occupied := by
        rw [← h]
        rfl
      refine counted_of_add hmetrics rfl rfl fun f => ?_
      simp only [Counter.pushFailures.injEq, PushResult.failure?, Option.bind_some, Option.some.injEq, eq_comm]

theorem counted_push (q : Queue) (now : Instant) (r : Record) :
    q.Counted (q.push now r).1 (q.push now r).2.result? := by
  unfold push finish
  split
  · exact counted_report (by rfl) _
  · split
    · exact counted_report (by rfl) _
    · split
      · exact counted_report (by rfl) _
      · split
        · exact counted_report (by rfl) _
        · exact counted_of_eq rfl

theorem counted_resume (q : Queue) (ticket : Nat) : q.Counted (q.resume ticket).1 (q.resume ticket).2 := by
  unfold resume
  split
  · exact counted_report (by rfl) _
  · split
    · exact counted_report (by rfl) _
    · exact counted_of_eq rfl

/-- Only results of pushes count as such; records that are taken out count elsewhere. -/
theorem counted_popped {q q' : Queue} (h : q'.metrics = q.metrics) (n : Nat) : q.Counted (q'.popped n) none := by
  unfold popped
  split
  · exact counted_of_eq h
  · have hmetrics : ((gauge { q' with metrics := q'.metrics.add .popped n } q'.length).grant).metrics
        = (q.metrics.add .popped n).set .queueDepth q'.length := by
      rw [← h]
      rfl
    exact counted_of_add hmetrics rfl rfl fun f => rfl

theorem counted_drain (q : Queue) (n : Nat) : q.Counted (q.drain n).1 none :=
  counted_popped (by rfl) _

theorem counted_recv (q : Queue) : q.Counted q.recv.1 none := by
  unfold recv
  split
  · exact counted_of_eq rfl
  · exact q.counted_drain 1

theorem counted_recvBatch (q : Queue) (n : Nat) : q.Counted (q.recvBatch n).1 none := by
  unfold recvBatch
  split
  · exact counted_of_eq rfl
  · split
    · exact counted_of_eq rfl
    · exact q.counted_drain n

/-! ## Records and depth -/

/-- If no push can go on, the gauge shows how many records the queue holds. -/
def Gauged (q : Queue) : Prop :=
  q.granted = [] → q.failed = [] → q.metrics.gauge? .queueDepth = some q.length

/-- The queue has counted what has happened: the result of one more push, or none, and what has been handed out. -/
structure Tallied (q q' : Queue) (result : Option PushResult) (given : List Record) : Prop
    extends q.Counted q' result where
  popped : q'.metrics.count .popped = q.metrics.count .popped + given.length
  length : q'.length + given.length = q.length + if result = some .taken then 1 else 0
  gauged : q.Gauged ∨ result ≠ none ∨ given ≠ [] → q'.Gauged

variable {q q' : Queue}

/-- A push that can go on stays, or another one comes in its place. -/
theorem tallied_of_eq (hmetrics : q'.metrics = q.metrics) (hbuffered : q'.buffered = q.buffered)
    (hstays : q'.granted = [] → q'.failed = [] → q.granted = [] ∧ q.failed = []) : q.Tallied q' none [] := by
  have hlength : q'.length = q.length := congrArg List.length hbuffered
  refine ⟨counted_of_eq hmetrics, by rw [hmetrics]; rfl, hlength, fun hset => ?_⟩
  obtain hgauged : q.Gauged := by simpa using hset
  intro hgranted hfailed
  obtain ⟨hgranted, hfailed⟩ := hstays hgranted hfailed
  rw [hmetrics, hlength]
  exact hgauged hgranted hfailed

theorem tallied_report (hmetrics : q'.metrics = q.metrics) (howing : q'.Owing) {result : PushResult}
    (hlength : q'.length = q.length + if result = .taken then 1 else 0) :
    q.Tallied (q'.report result) (some result) [] := by
  have hset : (q'.report result).metrics.gauge? .queueDepth = some q'.occupied := by
    cases result with
    | taken => exact Metrics.gauge?_set ..
    | failed e => exact Metrics.gauge?_set ..
  have hsame : (q'.report result).granted = q'.granted ∧ (q'.report result).failed = q'.failed ∧
      (q'.report result).length = q'.length := by
    cases result with
    | taken => exact ⟨rfl, rfl, rfl⟩
    | failed e => exact ⟨rfl, rfl, rfl⟩
  obtain ⟨hsamegranted, hsamefailed, hsamelength⟩ := hsame
  have hpopped : (q'.report result).metrics.count .popped = q'.metrics.count .popped := by
    cases result with
    | taken => simp [report, tally, gauge]
    | failed e => simp [report, tally, gauge]
  refine ⟨counted_report hmetrics result, hpopped.trans (by rw [hmetrics]; rfl), ?_, fun _ hgranted hfailed => ?_⟩
  · rw [hsamelength]
    simpa using hlength
  · rw [hset, hsamelength, howing.occupied_of_nil (hsamegranted ▸ hgranted) (hsamefailed ▸ hfailed)]

theorem Owing.tallied_push (h : q.Owing) (now : Instant) (r : Record) :
    q.Tallied (q.push now r).1 (q.push now r).2.result? [] := by
  unfold Queue.push finish
  split
  · exact tallied_report (by rfl) h (by rfl)
  · split
    · have htake : (q.take r).Owing := h
      exact tallied_report (by rfl) htake (by exact List.length_append)
    · split
      · exact tallied_report (by rfl) h (by rfl)
      · split
        · exact tallied_report (by rfl) h (by rfl)
        · exact tallied_of_eq rfl rfl fun hgranted hfailed => ⟨hgranted, hfailed⟩

theorem Owing.tallied_resume (h : q.Owing) (ticket : Nat) :
    q.Tallied (q.resume ticket).1 (q.resume ticket).2 [] := by
  unfold Queue.resume
  split
  · next w hw =>
      -- No place is to be given back where one has been granted.
      have hpending : q.pending ≠ [] := List.ne_nil_of_mem (List.mem_append_left _ (List.mem_of_find?_eq_some hw))
      have htake : (take { q with granted := q.granted.filter (·.ticket != ticket) } w.record).Owing :=
        ⟨fun hne => absurd (h.1 hne).2 hpending, h.2⟩
      exact tallied_report (by rfl) htake (by exact List.length_append)
  · split
    · exact tallied_report (by rfl) (h.forget ticket) (by rfl)
    · exact tallied_of_eq rfl rfl fun hgranted hfailed => ⟨hgranted, hfailed⟩

theorem Regular.tallied_poll (h : q.Regular) (now : Instant) (ticket : Nat) :
    q.Tallied (q.poll now ticket).1 (q.poll now ticket).2 [] := by
  have hpolled := h.polled now ticket
  generalize q.poll now ticket = polled at hpolled
  cases hpolled with
  | timedOut w hw hdue =>
      have hnone := h.owing.outstanding (List.ne_nil_of_mem hw)
      have howing : Owing { q with waiting := q.waiting.filter (·.ticket != w.ticket) } :=
        ⟨fun hne => absurd hnone hne, h.owing.2⟩
      exact tallied_report (by rfl) howing (by rfl)
  | resumed ticket hnever => exact h.owing.tallied_resume ticket

theorem tallied_drain (q : Queue) (n : Nat) : q.Tallied (q.drain n).1 none (q.drain n).2 := by
  have hlength : (q.buffered.drop n).length + (q.buffered.take n).length = q.buffered.length := by
    rw [List.length_drop, List.length_take]
    omega
  show q.Tallied (popped { q with buffered := q.buffered.drop n } (q.buffered.take n).length) none (q.buffered.take n)
  unfold popped
  split
  · next hnone =>
      have hnil : q.buffered.take n = [] := List.eq_nil_of_length_eq_zero hnone
      have hall : q.buffered.drop n = q.buffered := by
        simpa [hnil] using List.take_append_drop n q.buffered
      rw [hnil]
      exact tallied_of_eq rfl hall fun hgranted hfailed => ⟨hgranted, hfailed⟩
  · next hsome =>
      refine ⟨?_, ?_, hlength, fun _ _ _ => Metrics.gauge?_set ..⟩
      · have hcounted := q.counted_drain n
        rwa [drain, popped, if_neg hsome] at hcounted
      · show (q.metrics.add .popped _).count .popped = _
        rw [Metrics.count_add, if_pos rfl]

theorem Owing.tallied_apply (h : q.Owing) (op : Operation) : q.Tallied (q.apply op) (q.result? op) (q.given op) := by
  have hsame (q' : Queue) (hq' : q'.metrics = q.metrics ∧ q'.buffered = q.buffered ∧ q'.granted = q.granted ∧
      q'.failed = q.failed) : q.Tallied q' none [] := by
    obtain ⟨hmetrics, hbuffered, hgranted, hfailed⟩ := hq'
    exact tallied_of_eq hmetrics hbuffered fun hg hf => ⟨hgranted ▸ hg, hfailed ▸ hf⟩
  cases op with
  | push now r => exact h.tallied_push now r
  | resume ticket => exact h.tallied_resume ticket
  | expire now =>
      exact tallied_of_eq rfl rfl fun hgranted hfailed => ⟨hgranted, (List.append_eq_nil_iff.mp hfailed).1⟩
  | addProducer => exact hsame _ ⟨rfl, rfl, rfl, rfl⟩
  | dropProducer => exact hsame _ ⟨rfl, rfl, rfl, rfl⟩
  | tryRecv =>
      rw [given_tryRecv]
      exact q.tallied_drain 1
  | recv =>
      obtain ⟨n, happly, hgiven⟩ := q.exists_drain_recv
      rw [hgiven, Queue.apply, happly]
      exact q.tallied_drain n
  | drain n => exact q.tallied_drain n
  | recvBatch n =>
      obtain ⟨m, happly, hgiven⟩ := q.exists_drain_recvBatch n
      rw [hgiven, Queue.apply, happly]
      exact q.tallied_drain m
  | close =>
      refine tallied_of_eq rfl rfl fun _ hfailed => ?_
      obtain ⟨hfailed, hpending⟩ := List.append_eq_nil_iff.mp hfailed
      exact ⟨(List.append_eq_nil_iff.mp (List.map_eq_nil_iff.mp hpending)).1, hfailed⟩

/-! ## Runs -/

theorem results_freed (q q' : Queue) (now : Instant) (n : Nat) : results ((q.freed q' n).map (now, ·)) = [] := by
  refine List.filterMap_eq_nil_iff.mpr fun entry hentry => ?_
  obtain ⟨e, he, rfl⟩ := List.mem_map.mp hentry
  obtain ⟨taker, -, rfl⟩ := List.mem_map.mp he
  rfl

theorem results_returns (now : Instant) (ticket : Nat) (result : Option PushResult) :
    results ((result.map (Event.returns ticket)).toList.map (now, ·)) = result.toList := by
  cases result with
  | none => rfl
  | some result => rfl

theorem results_events (q : Queue) (now : Instant) (op : Operation) :
    results ((q.events op).map (now, ·)) = (q.result? op).toList := by
  cases op with
  | push t r =>
      show [(now, pushed (q.push t r).2)].filterMap (·.2.result?) = (q.push t r).2.result?.toList
      cases (q.push t r).2 with
      | done result => rfl
      | waits ticket => rfl
  | resume ticket => exact results_returns now ticket _
  | _ => exact results_freed ..

namespace Watch

/-- What the queue has counted is what has happened. -/
structure Audited (s : Watch) (handed : List Record) : Prop where
  pushed : s.queue.metrics.count .pushed = (results s.log).count .taken
  popped : s.queue.metrics.count .popped = handed.length
  failures (f : PushFailure) :
    s.queue.metrics.count (.pushFailures f) = (results s.log).countP (·.failure? == some f)
  length : s.queue.length + handed.length = (results s.log).count .taken
  gauged : results s.log ≠ [] ∨ handed ≠ [] → s.queue.Gauged

variable {s : Watch} {handed given : List Record} {o : QueueOptions}

theorem audited_start (o : QueueOptions) (now : Instant) : (start o now).Audited [] :=
  ⟨rfl, rfl, fun _ => rfl, rfl, nofun⟩

theorem Audited.tallied (h : s.Audited handed) {queue : Queue} {result : Option PushResult}
    (htallied : s.queue.Tallied queue result given) {log : Log} (hlog : results log = result.toList) :
    Audited { s with queue, log := s.log ++ log } (handed ++ given) := by
  have hresults : results (s.log ++ log) = results s.log ++ result.toList := by rw [results_append, hlog]
  have htaken : (results (s.log ++ log)).count .taken
      = (results s.log).count .taken + if result = some .taken then 1 else 0 := by
    rw [hresults, List.count_append]
    cases result with
    | none => rfl
    | some result =>
        rw [Option.toList_some, List.count_singleton]
        simp only [beq_iff_eq, Option.some.injEq]
  refine ⟨?_, ?_, fun f => ?_, ?_, fun hset => htallied.gauged ?_⟩
  · rw [htallied.pushed, h.pushed, htaken]
  · rw [htallied.popped, h.popped, List.length_append]
  · rw [htallied.failures, h.failures, hresults, List.countP_append]
    cases result with
    | none => rfl
    | some result =>
        rw [Option.toList_some, List.countP_singleton]
        simp only [Option.bind_some, beq_iff_eq]
  · rw [htaken, ← h.length, List.length_append]
    have hlength : queue.length + given.length = _ := htallied.length
    show queue.length + (handed.length + given.length) = _
    omega
  · rw [hresults] at hset
    by_cases hresult : result = none
    · by_cases hgiven : given = []
      · rw [hresult, hgiven, Option.toList_none, List.append_nil, List.append_nil] at hset
        exact Or.inl (h.gauged hset)
      · exact Or.inr (Or.inr hgiven)
    · exact Or.inr (Or.inl hresult)

theorem Audited.step (h : s.Audited handed) (hregular : s.queue.Regular) {m : Move} (hm : m ≠ .abandon) :
    (s.step m).Audited (handed ++ s.given m) := by
  unfold Watch.step
  split
  · cases m with
    | act op => exact h.tallied (hregular.owing.tallied_apply op) (results_events ..)
    | poll ticket => exact h.tallied (hregular.tallied_poll s.now ticket) (results_returns ..)
    | elapse t =>
        have hsame : s.given (.elapse t) = [] := rfl
        rw [hsame, List.append_nil]
        exact ⟨h.pushed, h.popped, h.failures, h.length, h.gauged⟩
    | abandon => exact absurd rfl hm
  · next hnot =>
      rw [given_of_not_allows (Bool.eq_false_iff.mpr hnot), List.append_nil]
      exact h

theorem Audited.run (h : s.Audited handed) (hwatched : s.Watched o) {ms : List Move} (hms : .abandon ∉ ms) :
    (s.run ms).Audited (handed ++ s.handed ms) := by
  induction ms generalizing s handed with
  | nil => rwa [Watch.handed, List.append_nil]
  | cons m ms ih =>
      rw [List.mem_cons, not_or] at hms
      rw [handed_cons, ← List.append_assoc]
      exact ih (h.step hwatched.regular (Ne.symm hms.1)) (hwatched.step m) hms.2

/-- What a queue shows when no push can go on. -/
structure Reckoned (o : QueueOptions) (s : Watch) (handed : List Record) : Prop where
  /-- Producers and the consumer see the same depth, each in its own way: the number of records. -/
  depth : s.queue.occupied = s.queue.length ∧ s.queue.length = s.queue.buffered.length
  capacity : s.queue.capacity = max 1 o.capacity
  bounded : s.queue.length ≤ s.queue.capacity
  balance : s.queue.metrics.count .pushed = s.queue.metrics.count .popped + s.queue.length
  pushed : s.queue.metrics.count .pushed = (results s.log).count .taken
  popped : s.queue.metrics.count .popped = handed.length
  failures (f : PushFailure) :
    s.queue.metrics.count (.pushFailures f) = (results s.log).countP (·.failure? == some f)
  gauge : results s.log ≠ [] ∨ handed ≠ [] → s.queue.metrics.gauge? .queueDepth = some s.queue.length

/-- In every run in which the consumer stays, the counts and the gauge of the queue are right whenever no push can go
on. -/
theorem reckoned_at_rest (o : QueueOptions) (now : Instant) (ms : List Move) (hstays : .abandon ∉ ms)
    (hrests : ((start o now).run ms).rests = true) :
    Reckoned o ((start o now).run ms) ((start o now).handed ms) := by
  have hwatched := (watched_start o now).run ms
  have haudited : ((start o now).run ms).Audited ((start o now).handed ms) :=
    (audited_start o now).run (watched_start o now) hstays
  generalize (start o now).run ms = s at *
  obtain ⟨hgranted, hfailed, -⟩ := rests_iff.mp hrests
  have hdepth : s.queue.occupied = s.queue.length := hwatched.regular.owing.occupied_of_nil hgranted hfailed
  have hlength := haudited.length
  exact {
    depth := ⟨hdepth, rfl⟩
    capacity := hwatched.allotted.capacity
    bounded := hdepth ▸ hwatched.allotted.bounded
    balance := by rw [haudited.pushed, haudited.popped, ← hlength, Nat.add_comm]
    pushed := haudited.pushed
    popped := haudited.popped
    failures := haudited.failures
    gauge := fun hset => haudited.gauged hset hgranted hfailed }

/-- Of four pushes into a queue with one place, one gets it at once and one gets it from the consumer; the third gives
up, and the fourth comes too late. -/
theorem reckoned_at_rest_of_four :
    let r : Record := ⟨[97], .v4 ⟨192, 0, 2, 10⟩ 40000, 0, 0⟩
    let o : QueueOptions := { capacity := 1, backpressure := .wait, pushTimeout := ⟨5⟩ }
    let push (t : Nat) := Move.act (.push ⟨t⟩ r)
    let ms := [push 0, push 0, push 0, .act .tryRecv, .poll 0, .elapse ⟨5⟩, .poll 1, .act .close, push 5]
    .abandon ∉ ms ∧ ((start o ⟨0⟩).run ms).rests = true ∧
      Reckoned o ((start o ⟨0⟩).run ms) ((start o ⟨0⟩).handed ms) ∧
      results ((start o ⟨0⟩).run ms).log = [.taken, .taken, .failed (.timedOut ⟨5⟩), .failed .closed] := by
  intro r o push ms
  have hstays : .abandon ∉ ms := by decide
  have hrests : ((start o ⟨0⟩).run ms).rests = true := by decide +kernel
  exact ⟨hstays, hrests, reckoned_at_rest o ⟨0⟩ ms hstays hrests, by decide +kernel⟩

end Watch

end Queue

end LogIntake
