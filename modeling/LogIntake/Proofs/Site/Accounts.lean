import LogIntake.Proofs.Site.Admission
import Mathlib.Algebra.BigOperators.Group.List.Basic
import Mathlib.Algebra.GroupWithZero.Nat

/-!
# The accounts agree

What goes on at a site is written down in several places: the listener has its own numbers and lists, the ledger its
counters and a list of the connections that have ended, the queue its counters, and each worker knows its connection.
They are kept at different places of different steps, and after every step they agree.
-/

namespace LogIntake

def CloseReason.all : List CloseReason :=
  [.eof, .io, .decode, .framing, .timeout, .queue, .shutdown]

def PushFailure.all : List PushFailure :=
  [.full, .timeout, .closed]

/-- The sum of counters that are kept apart by a label. -/
def Metrics.total {α : Type} (m : Metrics) (labels : List α) (c : α → Counter) : Nat :=
  (labels.map fun a => m.count (c a)).sum

theorem Metrics.Apart.total_join {α : Type} {m n : Metrics} (h : m.Apart n) (labels : List α) (c : α → Counter) :
    ((∀ a, (c a).ofQueue = false) → (m.join n).total labels c = m.total labels c) ∧
      ((∀ a, (c a).ofQueue = true) → (m.join n).total labels c = n.total labels c) := by
  constructor
  · intro hc
    simp [Metrics.total, h.count_join, hc]
  · intro hc
    simp [Metrics.total, h.count_join, hc]

section Labels

variable {α β : Type} [DecidableEq β]

theorem sum_map_eq_count (labels : List β) (b : β) :
    (labels.map fun a => if b = a then 1 else 0).sum = labels.count b := by
  induction labels with
  | nil => rfl
  | cons a labels ih =>
      rw [List.map_cons, List.sum_cons, ih, List.count_cons, Nat.add_comm]
      by_cases heq : b = a
      · subst heq
        simp
      · simp [heq, Ne.symm heq]

/-- Counted label by label, what has a label is counted once. -/
theorem sum_countP_labels {labels : List β} (hlabels : ∀ b, labels.count b = 1) (f : α → Option β) (as : List α) :
    (labels.map fun b => as.countP (f · = some b)).sum = as.countP fun a => (f a).isSome := by
  induction as with
  | nil => simp
  | cons a as ih =>
      have hone : (labels.map fun b => if f a = some b then 1 else 0).sum = if (f a).isSome then 1 else 0 := by
        cases f a with
        | none => simp
        | some b => simp [sum_map_eq_count, hlabels]
      simp only [List.countP_cons, decide_eq_true_eq]
      rw [List.sum_map_add, ih, hone]

end Labels

namespace Ledger

variable {l l' : Ledger} {w : Worker} {events : List Worker.Event}

theorem Observed.decoded (h : l.Observed w events l') :
    l'.metrics.total Framing.all .decoded = l.metrics.total Framing.all .decoded + events.count .delivered := by
  cases hframing : w.options.framing <;> simp [Metrics.total, Framing.all, h.count, hframing] <;> omega

theorem Observed.unreadable (h : l.Observed w events l') :
    l'.metrics.total Framing.all .decodeErrors = l.metrics.total Framing.all .decodeErrors
      + (events.filterMap Worker.Event.unit?).length := by
  cases hframing : w.options.framing <;> simp [Metrics.total, Framing.all, h.count, hframing] <;> omega

end Ledger

namespace Listener

/-! ## The invariant -/

/-- What the listener, the ledger, the queue and the workers have written down agrees. -/
structure Accounts (l : Listener) (i : Intake) : Prop where
  apart : i.ledger.metrics.Apart i.queue.metrics
  accepted : i.ledger.metrics.count .accepted = l.stats.accepted
  rejected : i.ledger.metrics.count .rejected = l.stats.rejected
  acceptErrors : i.ledger.metrics.count .acceptErrors = l.stats.acceptErrors
  active : (i.ledger.metrics.gauge? .activeConnections).getD 0 = l.stats.active
  closed (r : CloseReason) : i.ledger.metrics.count (.closed r) = i.ledger.closings.countP (·.summary.reason = r)
  failures (f : PushFailure) : i.queue.metrics.count (.pushFailures f) = i.ledger.closings.countP (·.failure? = some f)
  reasons : ∀ k ∈ i.ledger.closings, k.summary.reason = .queue ↔ k.failure?.isSome
  decoded : i.ledger.metrics.total Framing.all .decoded = i.queue.metrics.count .pushed
  decodeErrors : i.ledger.metrics.total Framing.all .decodeErrors = i.ledger.decodeErrors.length
  records : (i.ledger.closings.map (·.summary.records)).sum + (i.workers.map (·.records)).sum
    = i.queue.metrics.count .pushed
  malformed : (i.ledger.closings.map (·.summary.malformed)).sum + (i.workers.map (·.malformed)).sum
    = i.ledger.decodeErrors.length

theorem accounts_start (o : ListenerOptions) (queue : QueueOptions) (localAddress : Option SocketAddress)
    (offers : List Offer) : (start o localAddress offers).Accounts { queue := .start queue } :=
  ⟨⟨Metrics.within_empty .., Metrics.within_empty ..⟩, rfl, rfl, rfl, rfl, fun _ => rfl, fun _ => rfl,
    fun _ hk => (List.not_mem_nil hk).elim, rfl, rfl, rfl, rfl⟩

variable {l l' : Listener} {i i' : Intake}

/-- Steps that concern none of the accounts. -/
theorem Accounts.of_counted (h : l.Accounts i) (hstats : l'.stats = l.stats) (hledger : i'.ledger = i.ledger)
    (hworkers : i'.workers = i.workers) (hqueue : i.queue.Counted i'.queue none) : l'.Accounts i' := by
  have hpushed : i'.queue.metrics.count .pushed = i.queue.metrics.count .pushed := hqueue.pushed
  refine ⟨⟨hledger ▸ h.apart.outside, hqueue.within h.apart.queue⟩, ?_, ?_, ?_, ?_, fun r => ?_, fun f => ?_, ?_, ?_,
    ?_, ?_, ?_⟩
  · rw [hledger, hstats]; exact h.accepted
  · rw [hledger, hstats]; exact h.rejected
  · rw [hledger, hstats]; exact h.acceptErrors
  · rw [hledger, hstats]; exact h.active
  · rw [hledger]; exact h.closed r
  · rw [hledger, hqueue.failures]; exact h.failures f
  · rw [hledger]; exact h.reasons
  · rw [hledger, hpushed]; exact h.decoded
  · rw [hledger]; exact h.decodeErrors
  · rw [hledger, hworkers, hpushed]; exact h.records
  · rw [hledger, hworkers]; exact h.malformed

theorem Accounts.total_closed (h : l.Accounts i) :
    i.ledger.metrics.total CloseReason.all .closed = i.ledger.closings.length := by
  have hlabels : ∀ r, CloseReason.all.count r = 1 := by
    intro r
    cases r <;> decide
  have hsum := sum_countP_labels hlabels (fun k : Closing => some k.summary.reason) i.ledger.closings
  simpa [Metrics.total, h.closed] using hsum

theorem Accounts.closed_queue (h : l.Accounts i) :
    i.ledger.metrics.count (.closed .queue) = i.queue.metrics.total PushFailure.all .pushFailures := by
  have hlabels : ∀ f, PushFailure.all.count f = 1 := by
    intro f
    cases f <;> decide
  have hsum := sum_countP_labels hlabels Closing.failure? i.ledger.closings
  have hreasons : i.ledger.closings.countP (·.summary.reason = .queue) = i.ledger.closings.countP (·.failure?.isSome) :=
    List.countP_congr fun k hk => by simpa using h.reasons k hk
  rw [h.closed, hreasons, ← hsum]
  simp [Metrics.total, h.failures]

/-! ## Steps of the listener -/

/-- The listener counts something of its own, besides the gauge and perhaps a new worker. -/
theorem Accounts.of_added (h : l.Accounts i) {c : Counter} (hc : c = .accepted ∨ c = .rejected ∨ c = .acceptErrors)
    (hcount : ∀ d, i'.ledger.metrics.count d = i.ledger.metrics.count d + if d = c then 1 else 0)
    (hwithin : i'.ledger.metrics.Within (!·.ofQueue) .activeConnections)
    (haccepted : l'.stats.accepted = l.stats.accepted + if .accepted = c then 1 else 0)
    (hrejected : l'.stats.rejected = l.stats.rejected + if .rejected = c then 1 else 0)
    (herrors : l'.stats.acceptErrors = l.stats.acceptErrors + if .acceptErrors = c then 1 else 0)
    (hactive : (i'.ledger.metrics.gauge? .activeConnections).getD 0 = l'.stats.active)
    (hclosings : i'.ledger.closings = i.ledger.closings) (hunits : i'.ledger.decodeErrors = i.ledger.decodeErrors)
    (hqueue : i'.queue.metrics = i.queue.metrics)
    (hrecords : (i'.workers.map (·.records)).sum = (i.workers.map (·.records)).sum)
    (hmalformed : (i'.workers.map (·.malformed)).sum = (i.workers.map (·.malformed)).sum) : l'.Accounts i' := by
  have hother (d : Counter) (hd : d ≠ .accepted ∧ d ≠ .rejected ∧ d ≠ .acceptErrors) :
      i'.ledger.metrics.count d = i.ledger.metrics.count d := by
    have hne : d ≠ c := by
      rintro rfl
      simp [hd] at hc
    rw [hcount, if_neg hne]
    rfl
  refine ⟨⟨hwithin, hqueue ▸ h.apart.queue⟩, ?_, ?_, ?_, hactive, fun r => ?_, fun f => ?_, ?_, ?_, ?_, ?_, ?_⟩
  · rw [hcount, haccepted, h.accepted]
  · rw [hcount, hrejected, h.rejected]
  · rw [hcount, herrors, h.acceptErrors]
  · rw [hother _ (by simp), hclosings]
    exact h.closed r
  · rw [hqueue, hclosings]
    exact h.failures f
  · rw [hclosings]
    exact h.reasons
  · simp only [Metrics.total, fun f => hother (.decoded f) (by simp), hqueue]
    exact h.decoded
  · simp only [Metrics.total, fun f => hother (.decodeErrors f) (by simp), hunits]
    exact h.decodeErrors
  · rw [hclosings, hqueue, hrecords]
    exact h.records
  · rw [hclosings, hunits, hmalformed]
    exact h.malformed

theorem Accounts.course (h : l.Accounts i) {got : Option Accepted} (hcourse : l.Course i got l' i') :
    l'.Accounts i' := by
  have hsame : i.queue.Counted i.queue none := Queue.counted_of_eq rfl
  cases hcourse with
  | waits => exact h
  | opens log phase => exact h.of_counted rfl rfl rfl hsame
  | told log phase cancelled => exact h.of_counted rfl rfl rfl hsame
  | finishes deadline failure phase ended => exact h.of_counted (l.stats_finish i failure) rfl rfl hsame
  | rejects peer steps rest phase full =>
      exact h.of_added (Or.inr (Or.inl rfl)) (fun d => Metrics.count_add ..) (h.apart.outside.add rfl 1) rfl rfl rfl
        h.active rfl rfl rfl rfl rfl
  | serves peer steps rest phase free =>
      refine h.of_added (Or.inl rfl) (fun d => Metrics.count_add ..) ((h.apart.outside.add rfl 1).shift _) rfl rfl rfl
        ?_ rfl rfl rfl ?_ ?_
      · show (((i.ledger.metrics.add .accepted 1).shift .activeConnections (· + 1)).gauge? _).getD 0
          = l.stats.active + 1
        rw [Metrics.gauge?_shift, Option.getD_some, Metrics.gauge?_add, h.active]
      · show ((i.workers ++ [_]).map _).sum = _
        simp [Worker.start]
      · show ((i.workers ++ [_]).map _).sum = _
        simp [Worker.start]
  | backsOff cause rest phase mild =>
      exact h.of_added (Or.inr (Or.inr rfl)) (fun d => Metrics.count_add ..) (h.apart.outside.add rfl 1) rfl rfl rfl
        h.active rfl rfl rfl rfl rfl
  | breaks cause rest log phase grave => exact h.of_counted rfl rfl rfl hsame

end Listener

namespace Site

variable {s t : Site}

/-! ## Steps of workers -/

theorem accounts_stepWorker (h : s.listener.Accounts s.intake) (hnodup : (s.intake.workers.map (·.connection)).Nodup)
    {w : Worker} (hw : w ∈ s.intake.workers) (allowance : Nat) :
    (s.stepWorker w allowance).listener.Accounts (s.stepWorker w allowance).intake := by
  have hbalanced := w.balanced_step s.intake.now s.intake.stopping s.intake.queue allowance
  have hworked := s.worked_stepWorker w allowance
  have hobserved := s.observed_observed w allowance
  obtain ⟨before, after, hsplit, hreplace, hfilter⟩ := Intake.exists_split hnodup hw
  generalize w.step s.intake.now s.intake.stopping s.intake.queue allowance = turn at *
  generalize s.observed w allowance = l at *
  generalize s.stepWorker w allowance = t at *
  have hrecords := h.records
  have hmalformed := h.malformed
  have hpushed := hbalanced.pushed
  rw [hsplit] at hrecords hmalformed
  simp only [List.map_append, List.map_cons, List.sum_append, List.sum_cons] at hrecords hmalformed
  have hown (c : Counter) (hdecoded : ∀ f, c ≠ .decoded f) (hunits : ∀ f, c ≠ .decodeErrors f) :
      l.metrics.count c = s.intake.ledger.metrics.count c := by
    rw [hobserved.count, if_neg (hdecoded _), if_neg (hunits _)]
    rfl
  have hgauge : l.metrics.gauge? .activeConnections = s.intake.ledger.metrics.gauge? .activeConnections := by
    rw [Metrics.gauge?, hobserved.gauges]
    rfl
  cases hworked with
  | left v next workers queue ledger listener =>
      obtain ⟨hconnection, -, -, hrecordsV, hmalformedV⟩ := hbalanced.going v next
      have hopen : turn.next.closing? = none := by
        cases hend : turn.next with
        | ended k => rw [hend] at next; cases next
        | _ => rfl
      rw [hreplace v hconnection] at workers
      rw [listener]
      refine ⟨?_, ?_, ?_, ?_, ?_, fun r => ?_, fun f => ?_, ?_, ?_, ?_, ?_, ?_⟩
      · rw [ledger, queue]
        exact ⟨hobserved.within h.apart.outside, hbalanced.within h.apart.queue⟩
      · rw [ledger, hown _ (by simp) (by simp)]
        exact h.accepted
      · rw [ledger, hown _ (by simp) (by simp)]
        exact h.rejected
      · rw [ledger, hown _ (by simp) (by simp)]
        exact h.acceptErrors
      · rw [ledger, hgauge]
        exact h.active
      · rw [ledger, hown _ (by simp) (by simp), hobserved.closings]
        exact h.closed r
      · rw [ledger, queue, hbalanced.failures, hopen, hobserved.closings]
        exact h.failures f
      · rw [ledger, hobserved.closings]
        exact h.reasons
      · rw [ledger, queue, hobserved.decoded, hpushed, h.decoded]
      · rw [ledger, hobserved.unreadable, hobserved.decodeErrors, h.decodeErrors]
        simp
      · rw [ledger, queue, workers, hobserved.closings, hpushed]
        simp only [List.map_append, List.map_cons, List.sum_append, List.sum_cons]
        omega
      · rw [ledger, workers, hobserved.closings, hobserved.decodeErrors]
        simp only [List.map_append, List.map_cons, List.sum_append, List.sum_cons, List.length_append, List.length_map]
        omega
  | ended k next workers queue ledger listener =>
      have hk : turn.next.closing? = some k := by rw [next]; rfl
      obtain ⟨-, -, hrecordsK, hmalformedK, hreason⟩ := hbalanced.ended k hk
      have hclosings : t.intake.ledger.closings = s.intake.ledger.closings ++ [k] := by
        rw [ledger, ← hobserved.closings]
        rfl
      have hunits : t.intake.ledger.decodeErrors = l.decodeErrors := by rw [ledger]; rfl
      have hcount (c : Counter) : t.intake.ledger.metrics.count c
          = l.metrics.count c + if c = .closed k.summary.reason then 1 else 0 := by
        rw [ledger]
        exact Metrics.count_add ..
      have hqueue : t.intake.queue.metrics = turn.queue.metrics := by rw [queue]; rfl
      rw [hfilter] at workers
      rw [listener]
      refine ⟨?_, ?_, ?_, ?_, ?_, fun r => ?_, fun f => ?_, ?_, ?_, ?_, ?_, ?_⟩
      · have hadded : (l.metrics.add (.closed k.summary.reason) 1).Within (!·.ofQueue) .activeConnections :=
          (hobserved.within h.apart.outside).add rfl 1
        rw [hqueue, ledger]
        exact ⟨hadded.shift (· - 1), hbalanced.within h.apart.queue⟩
      · rw [hcount, hown _ (by simp) (by simp)]
        exact h.accepted
      · rw [hcount, hown _ (by simp) (by simp)]
        exact h.rejected
      · rw [hcount, hown _ (by simp) (by simp)]
        exact h.acceptErrors
      · rw [ledger, Metrics.gauge?_shift, Option.getD_some]
        show (l.metrics.gauge? .activeConnections).getD 0 - 1 = s.listener.stats.active - 1
        rw [hgauge, h.active]
      · rw [hcount, hown _ (by simp) (by simp), hclosings, List.countP_append, h.closed r]
        simp [eq_comm]
      · rw [hqueue, hbalanced.failures, hk, hclosings, List.countP_append, h.failures f]
        simp [eq_comm]
      · rw [hclosings]
        intro k' hk'
        rcases List.mem_append.mp hk' with hold | hnew
        · exact h.reasons k' hold
        · obtain rfl := List.mem_singleton.mp hnew
          exact hreason
      · rw [hqueue, hpushed, ← h.decoded, ← hobserved.decoded]
        simp [Metrics.total, hcount]
      · rw [hunits, hobserved.decodeErrors, List.length_append, List.length_map, ← h.decodeErrors,
          ← hobserved.unreadable]
        simp [Metrics.total, hcount]
      · rw [hqueue, workers, hclosings, hpushed]
        simp only [List.map_append, List.map_cons, List.map_nil, List.sum_append, List.sum_cons, List.sum_nil]
        omega
      · rw [workers, hclosings, hunits, hobserved.decodeErrors]
        simp only [List.map_append, List.map_cons, List.map_nil, List.sum_append, List.sum_cons, List.sum_nil,
          List.length_append, List.length_map]
        omega

/-! ## Runs -/

variable {o : ListenerOptions} {as : List Listener.Admission}

theorem accounts_step (h : s.listener.Accounts s.intake) (hadmits : s.listener.Admits o s.intake as) (m : Move) :
    (s.step m).listener.Accounts (s.step m).intake := by
  have hsame {queue : Queue} (hqueue : s.intake.queue.Counted queue none) :
      s.listener.Accounts { s.intake with queue } := h.of_counted rfl rfl rfl hqueue
  have hconsume {queue : Queue} {records : List Record} (hqueue : s.intake.queue.Counted queue none) :
      (s.consume queue records).listener.Accounts (s.consume queue records).intake := by
    unfold consume
    split
    · exact hsame hqueue
    · exact h
  cases m with
  | listener allowance => exact h.course (Listener.course_step s.listener s.intake allowance)
  | worker connection allowance =>
      simp only [step]
      cases hw : s.intake.worker? connection with
      | none => exact h
      | some w =>
          exact accounts_stepWorker h (List.nodup_append.mp hadmits.nodup).2.1 (List.mem_of_find?_eq_some hw) allowance
  | drain n => exact hconsume (s.intake.queue.counted_drain n)
  | tryRecv => exact hconsume (s.intake.queue.counted_drain 1)
  | recv => exact hconsume s.intake.queue.counted_recv
  | recvBatch n => exact hconsume (s.intake.queue.counted_recvBatch n)
  | close => exact hconsume (Queue.counted_of_eq rfl)
  | leave => exact hsame (Queue.counted_of_eq rfl)
  | stop => exact h.of_counted rfl rfl rfl (Queue.counted_of_eq rfl)
  | elapse t => exact h.of_counted rfl rfl rfl (Queue.counted_of_eq rfl)

theorem accounts_run (h : s.listener.Accounts s.intake) (hadmits : s.listener.Admits o s.intake as)
    (moves : List Move) : (s.run moves).listener.Accounts (s.run moves).intake := by
  induction moves generalizing s as with
  | nil => exact h
  | cons m moves ih => exact ih (accounts_step h hadmits m) (admits_step hadmits m)

/-- After every run the metrics agree with the listener's own numbers, with the lists of what it has told of, and with
the summaries of the connections. Each connection taken on has one worker or one summary, and what the workers and
the summaries tell adds up to what the queue and the ledger have counted. -/
theorem accounts_agree (o : ListenerOptions) (queue : QueueOptions) (localAddress : Option SocketAddress)
    (offers : List Offer) (moves : List Move) :
    let s := (start o queue localAddress offers).run moves
    let m := s.intake.metrics
    let closings := s.intake.ledger.closings
    let closed := m.total CloseReason.all .closed
    m.count .accepted = s.listener.stats.accepted ∧
      m.count .rejected = s.listener.stats.rejected ∧
      m.count .acceptErrors = s.listener.stats.acceptErrors ∧
      s.listener.stats.rejected = s.listener.rejected.length ∧
      s.listener.stats.acceptErrors = s.listener.acceptErrors.length ∧
      (m.gauge? .activeConnections).getD 0 = s.listener.stats.active ∧
      s.listener.stats.active + closed = s.listener.stats.accepted ∧
      closed = closings.length ∧
      s.intake.roll.Perm (List.range' 1 s.listener.stats.accepted) ∧
      m.total Framing.all .decodeErrors = s.intake.ledger.decodeErrors.length ∧
      m.total Framing.all .decoded = m.count .pushed ∧
      m.count (.closed .queue) = m.total PushFailure.all .pushFailures ∧
      (∀ r, m.count (.closed r) = (closings.filter (·.summary.reason = r)).length) ∧
      (closings.map (·.summary.records)).sum + (s.intake.workers.map (·.records)).sum = m.count .pushed ∧
      (closings.map (·.summary.malformed)).sum + (s.intake.workers.map (·.malformed)).sum
        = m.total Framing.all .decodeErrors ∧
      (s.intake.workers = [] → (closings.map (·.summary.records)).sum = m.count .pushed ∧
        (closings.map (·.summary.malformed)).sum = m.total Framing.all .decodeErrors) := by
  intro s m closings closed
  have hstart := Listener.admits_start o localAddress offers (.start queue)
  have hadmits : s.listener.Admits o s.intake _ := admits_run hstart moves
  have h : s.listener.Accounts s.intake :=
    accounts_run (Listener.accounts_start o queue localAddress offers) hstart moves
  have hactive := hadmits.active
  have hroll : closings.length + s.intake.workers.length = s.listener.stats.accepted := by
    simpa [Intake.roll] using hadmits.roll.length_eq
  have hclosed : closed = closings.length := ((h.apart.total_join _ _).1 fun _ => rfl).trans h.total_closed
  have hdecoded : m.total Framing.all .decoded = m.count .pushed :=
    ((h.apart.total_join _ _).1 fun _ => rfl).trans (h.decoded.trans (h.apart.count_join .pushed).symm)
  have hunits : m.total Framing.all .decodeErrors = s.intake.ledger.decodeErrors.length :=
    ((h.apart.total_join _ _).1 fun _ => rfl).trans h.decodeErrors
  have hfailures : m.total PushFailure.all .pushFailures = s.intake.queue.metrics.total PushFailure.all .pushFailures :=
    (h.apart.total_join _ _).2 fun _ => rfl
  have hrecords :
      (closings.map (·.summary.records)).sum + (s.intake.workers.map (·.records)).sum = m.count .pushed :=
    h.records.trans (h.apart.count_join .pushed).symm
  have hmalformed := h.malformed.trans hunits.symm
  refine ⟨(h.apart.count_join _).trans h.accepted, (h.apart.count_join _).trans h.rejected,
    (h.apart.count_join _).trans h.acceptErrors, hadmits.rejections, hadmits.errors, ?_, by omega, hclosed,
    hadmits.roll, hunits, hdecoded, ?_, fun r => ?_, hrecords, hmalformed, fun hnobody => ?_⟩
  · rw [show m.gauge? .activeConnections = _ from h.apart.gauge?_join]
    exact h.active
  · rw [hfailures, ← h.closed_queue]
    exact h.apart.count_join _
  · rw [← List.countP_eq_length_filter, ← h.closed r]
    exact h.apart.count_join _
  · rw [hnobody] at hrecords hmalformed
    exact ⟨hrecords, hmalformed⟩

end Site

end LogIntake
