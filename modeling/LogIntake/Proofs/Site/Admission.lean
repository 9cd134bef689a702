import LogIntake.Proofs.Connection.Balance
import LogIntake.Proofs.Site.Steps

/-!
# Who is let in

A listener has a slot for each worker that there may be. A connection that comes when none is free is turned away,
and every other connection gets a worker, with the next number. A run is accompanied here by the admissions: what
accepting has given, how many workers there were then, and which workers have begun for it. What the listener has
counted is what is found there.
-/

namespace LogIntake

def Accepted.isConnection : Accepted → Bool
  | .connection _ _ => true
  | .failed _ => false

/-- The connections that have ended, and those that have not. -/
def Intake.roll (i : Intake) : List Nat :=
  i.ledger.closings.map (·.summary.connection) ++ i.workers.map (·.connection)

namespace Listener

/-- What becomes of something that accepting has given. -/
structure Admission where
  accepted : Accepted
  /-- How many workers there were. -/
  live : Nat
  /-- The workers that have begun for it. -/
  begun : List Worker
  deriving DecidableEq, Repr

namespace Admission

/-- The connection, if a worker has begun for it. -/
def taken? (a : Admission) : Option (SocketAddress × List Source.Step) :=
  match a.accepted with
  | .connection peer steps => if a.begun.isEmpty then none else some (peer, steps)
  | .failed _ => none

/-- The peer of a connection for which no worker has begun. -/
def rejected? (a : Admission) : Option SocketAddress :=
  match a.accepted with
  | .connection peer _ => if a.begun.isEmpty then some peer else none
  | .failed _ => none

/-- The failure, if the listener goes on after it. -/
def failure? (a : Admission) : Option IoError :=
  match a.accepted with
  | .connection _ _ => none
  | .failed cause => if cause.endsListening then none else some cause

end Admission

/-- The workers for connections, numbered from 1. -/
def workersFor (o : WorkerOptions) (connections : List (SocketAddress × List Source.Step)) : List Worker :=
  connections.mapIdx fun k c => .start (k + 1) c.1 o c.2

/-! ## The invariant -/

/-- A listener's records of its workers agree with each other and with the admissions. -/
structure Admits (o : ListenerOptions) (l : Listener) (i : Intake) (as : List Admission) : Prop where
  options : l.options = o
  active : l.stats.active = i.workers.length
  slots : l.slots + i.workers.length = o.maxConnections
  nextConnection : l.nextConnection = l.stats.accepted + 1
  roll : i.roll.Perm (List.range' 1 l.stats.accepted)
  accepted : l.stats.accepted = (as.filterMap (·.taken?)).length
  begun : as.flatMap (·.begun) = workersFor o.worker (as.filterMap (·.taken?))
  rejected : l.rejected = as.filterMap (·.rejected?)
  rejections : l.stats.rejected = l.rejected.length
  failures : l.acceptErrors = as.filterMap (·.failure?)
  errors : l.stats.acceptErrors = l.acceptErrors.length
  decided : ∀ a ∈ as, a.live ≤ o.maxConnections ∧
    (a.accepted.isConnection = true → (a.begun = [] ↔ a.live = o.maxConnections))

theorem admits_start (o : ListenerOptions) (localAddress : Option SocketAddress) (offers : List Offer)
    (queue : Queue) : (start o localAddress offers).Admits o { queue } [] :=
  ⟨rfl, rfl, rfl, rfl, .refl _, rfl, rfl, rfl, rfl, rfl, rfl, fun _ ha => (List.not_mem_nil ha).elim⟩

variable {o : ListenerOptions} {l l' : Listener} {i i' : Intake} {as : List Admission}

/-- Steps that concern neither the counts nor the workers that there are. -/
theorem Admits.of_same (h : l.Admits o i as) (hoptions : l'.options = l.options) (hslots : l'.slots = l.slots)
    (hnext : l'.nextConnection = l.nextConnection) (hstats : l'.stats = l.stats) (hrejected : l'.rejected = l.rejected)
    (herrors : l'.acceptErrors = l.acceptErrors) (hroll : i'.roll = i.roll)
    (hworkers : i'.workers.length = i.workers.length) : l'.Admits o i' as := by
  refine ⟨?_, ?_, ?_, ?_, ?_, ?_, h.begun, ?_, ?_, ?_, ?_, h.decided⟩
  · rw [hoptions]; exact h.options
  · rw [hstats, hworkers]; exact h.active
  · rw [hslots, hworkers]; exact h.slots
  · rw [hnext, hstats]; exact h.nextConnection
  · rw [hroll, hstats]; exact h.roll
  · rw [hstats]; exact h.accepted
  · rw [hrejected]; exact h.rejected
  · rw [hstats, hrejected]; exact h.rejections
  · rw [herrors]; exact h.failures
  · rw [hstats, herrors]; exact h.errors

theorem Admits.nodup (h : l.Admits o i as) : i.roll.Nodup :=
  h.roll.nodup_iff.mpr List.nodup_range'

theorem Admits.live_le (h : l.Admits o i as) : i.workers.length ≤ o.maxConnections := by
  have hslots := h.slots
  omega

/-! ## Steps of the listener -/

theorem workersFor_append (o : WorkerOptions) (cs : List (SocketAddress × List Source.Step))
    (c : Option (SocketAddress × List Source.Step)) :
    workersFor o (cs ++ c.toList)
      = workersFor o cs ++ c.toList.map fun c => Worker.start (cs.length + 1) c.1 o c.2 := by
  cases c with
  | none => simp
  | some c => exact List.mapIdx_concat

/-- One more admission, and what it adds to the counts. -/
theorem Admits.admit (h : l.Admits o i as) (a : Admission) (hoptions : l'.options = l.options)
    (hactive : l'.stats.active = i'.workers.length) (hslots : l'.slots + i'.workers.length = o.maxConnections)
    (hnext : l'.nextConnection = l'.stats.accepted + 1) (hroll : i'.roll.Perm (List.range' 1 l'.stats.accepted))
    (haccepted : l'.stats.accepted = l.stats.accepted + a.taken?.toList.length)
    (hbegun : a.begun = a.taken?.toList.map fun c => Worker.start (l.stats.accepted + 1) c.1 o.worker c.2)
    (hrejected : l'.rejected = l.rejected ++ a.rejected?.toList)
    (hrejections : l'.stats.rejected = l.stats.rejected + a.rejected?.toList.length)
    (hfailures : l'.acceptErrors = l.acceptErrors ++ a.failure?.toList)
    (herrors : l'.stats.acceptErrors = l.stats.acceptErrors + a.failure?.toList.length)
    (hlive : a.live ≤ o.maxConnections)
    (hdecided : a.accepted.isConnection = true → (a.begun = [] ↔ a.live = o.maxConnections)) :
    l'.Admits o i' (as ++ [a]) := by
  have hmap {α : Type} (f : Admission → Option α) : (as ++ [a]).filterMap f = as.filterMap f ++ (f a).toList := by
    cases hfa : f a <;> simp [hfa]
  refine ⟨hoptions.trans h.options, hactive, hslots, hnext, hroll, ?_, ?_, ?_, ?_, ?_, ?_, fun b hb => ?_⟩
  · rw [haccepted, hmap, List.length_append, h.accepted]
  · rw [List.flatMap_append, hmap, workersFor_append, h.begun, ← h.accepted, ← hbegun]
    simp
  · rw [hrejected, hmap, h.rejected]
  · rw [hrejections, hrejected, List.length_append, h.rejections]
  · rw [hfailures, hmap, h.failures]
  · rw [herrors, hfailures, List.length_append, h.errors]
  · rcases List.mem_append.mp hb with hold | hnew
    · exact h.decided b hold
    · obtain rfl := List.mem_singleton.mp hnew
      exact ⟨hlive, hdecided⟩

/-- A connection is taken on or turned away. -/
theorem length_taken_add_rejected (as : List Admission) :
    (as.filterMap (·.taken?)).length + (as.filterMap (·.rejected?)).length
      = (as.filter (·.accepted.isConnection)).length := by
  have hone (a : Admission) : a.taken?.toList.length + a.rejected?.toList.length
      = (if a.accepted.isConnection then [a] else []).length := by
    obtain ⟨accepted, live, begun⟩ := a
    cases accepted with
    | connection peer steps => cases begun <;> rfl
    | failed cause => rfl
  have hcons {α : Type} (f : Admission → Option α) (a : Admission) (as : List Admission) :
      (a :: as).filterMap f = (f a).toList ++ as.filterMap f := by
    cases hfa : f a <;> simp [hfa]
  induction as with
  | nil => rfl
  | cons a as ih =>
      have hfilter : (a :: as).filter (·.accepted.isConnection)
          = (if a.accepted.isConnection then [a] else []) ++ as.filter (·.accepted.isConnection) := by
        rw [List.filter_cons]
        split <;> rfl
      have hfirst := hone a
      rw [hcons, hcons, hfilter, List.length_append, List.length_append, List.length_append]
      omega

theorem Admits.course (h : l.Admits o i as) {got : Option Accepted} (hcourse : l.Course i got l' i') :
    l'.Admits o i' (as ++ (got.map fun accepted =>
      (⟨accepted, i.workers.length, i'.workers.drop i.workers.length⟩ : Admission)).toList) := by
  have hslots := h.slots
  have hactive := h.active
  cases hcourse with
  | waits => simpa using h
  | opens log phase =>
      rw [Option.map_none, Option.toList_none, List.append_nil]
      exact h.of_same rfl rfl rfl rfl rfl rfl rfl rfl
  | told log phase cancelled =>
      rw [Option.map_none, Option.toList_none, List.append_nil]
      exact h.of_same rfl rfl rfl rfl rfl rfl rfl rfl
  | finishes deadline failure phase ended =>
      rw [Option.map_none, Option.toList_none, List.append_nil]
      unfold finish
      split
      · exact h.of_same rfl rfl rfl rfl rfl rfl rfl rfl
      · exact h.of_same rfl rfl rfl rfl rfl rfl rfl rfl
  | rejects peer steps rest phase full =>
      have hnobody : ({ l with offers := rest }.reject i peer).2.workers.drop i.workers.length = [] := List.drop_length
      rw [Option.map_some, hnobody]
      refine h.admit _ rfl h.active h.slots h.nextConnection h.roll rfl rfl rfl rfl (List.append_nil _).symm rfl
        h.live_le fun _ => iff_of_true rfl ?_
      show i.workers.length = o.maxConnections
      omega
  | serves peer steps rest phase free =>
      have hone : ({ l with offers := rest }.serve i peer steps).2.workers.drop i.workers.length
          = [.start (l.stats.accepted + 1) peer o.worker steps] := by
        rw [← h.nextConnection, ← h.options]
        exact List.drop_left
      have hworkers : ({ l with offers := rest }.serve i peer steps).2.workers.length = i.workers.length + 1 :=
        List.length_append
      have hroll : ({ l with offers := rest }.serve i peer steps).2.roll = i.roll ++ [l.stats.accepted + 1] := by
        rw [← h.nextConnection]
        show i.ledger.closings.map _ ++ (i.workers ++ [_]).map _ = _
        rw [List.map_append, ← List.append_assoc]
        rfl
      rw [Option.map_some, hone]
      refine h.admit _ rfl ?_ ?_ ?_ ?_ rfl rfl (List.append_nil _).symm rfl (List.append_nil _).symm rfl h.live_le
        fun _ => iff_of_false (List.cons_ne_nil _ _) ?_
      · rw [hworkers, ← hactive]
        rfl
      · rw [hworkers]
        show l.slots - 1 + _ = _
        omega
      · show l.nextConnection + 1 = _
        rw [h.nextConnection]
        rfl
      · rw [hroll]
        show List.Perm _ (List.range' 1 (l.stats.accepted + 1))
        rw [List.range'_1_concat, Nat.add_comm 1]
        exact h.roll.append_right _
      · show i.workers.length ≠ o.maxConnections
        omega
  | backsOff cause rest phase mild =>
      have hnobody : ({ l with offers := rest }.backOff i cause).2.workers.drop i.workers.length = [] :=
        List.drop_length
      have hfailure : Admission.failure? ⟨.failed cause, i.workers.length, []⟩ = some cause := by
        simp [Admission.failure?, mild]
      rw [Option.map_some, hnobody]
      refine h.admit _ rfl h.active h.slots h.nextConnection h.roll rfl rfl (List.append_nil _).symm rfl ?_ ?_ h.live_le
        fun hconnection => nomatch hconnection
      · rw [hfailure]
        rfl
      · rw [hfailure]
        rfl
  | breaks cause rest log phase grave =>
      have hnobody : i.stop.workers.drop i.workers.length = [] := List.drop_length
      have hfailure : Admission.failure? ⟨.failed cause, i.workers.length, []⟩ = none := by
        simp [Admission.failure?, grave]
      rw [Option.map_some, hnobody]
      refine h.admit _ rfl h.active h.slots h.nextConnection h.roll rfl rfl (List.append_nil _).symm rfl ?_ ?_ h.live_le
        fun hconnection => nomatch hconnection
      · rw [hfailure]
        exact (List.append_nil _).symm
      · rw [hfailure]
        rfl

end Listener

namespace Site

/-- The admission of a move; most moves have none. -/
def admission? (s : Site) : Move → Option Listener.Admission
  | .listener allowance => (s.listener.receives s.intake allowance).map fun accepted =>
      { accepted, live := s.intake.workers.length
        begun := (s.step (.listener allowance)).intake.workers.drop s.intake.workers.length }
  | _ => none

/-- The admissions of a run. -/
def admissions (s : Site) : List Move → List Listener.Admission
  | [] => []
  | m :: moves => (s.admission? m).toList ++ admissions (s.step m) moves

variable {o : ListenerOptions} {s t : Site} {as : List Listener.Admission}

/-! ## Steps of workers -/

theorem admits_stepWorker (h : s.listener.Admits o s.intake as) {w : Worker} (hw : w ∈ s.intake.workers)
    (allowance : Nat) : (s.stepWorker w allowance).listener.Admits o (s.stepWorker w allowance).intake as := by
  have hbalanced := w.balanced_step s.intake.now s.intake.stopping s.intake.queue allowance
  have hworked := s.worked_stepWorker w allowance
  have hclosings := (s.observed_observed w allowance).closings
  obtain ⟨before, after, hsplit, -, hfilter⟩ :=
    Intake.exists_split (List.nodup_append.mp h.nodup).2.1 hw
  generalize s.stepWorker w allowance = t at *
  cases hworked with
  | left v next workers queue ledger listener =>
      rw [listener]
      refine h.of_same rfl rfl rfl rfl rfl rfl ?_ ?_
      · rw [Intake.roll, ledger, workers, hclosings, Intake.map_connection_replace]
        rfl
      · rw [workers]
        exact List.length_map _
  | ended k next workers queue ledger listener =>
      have hconnection : k.summary.connection = w.connection := (hbalanced.ended k (by rw [next]; rfl)).1
      rw [hfilter] at workers
      have hlength : s.intake.workers.length = t.intake.workers.length + 1 := by
        rw [hsplit, workers]
        simp only [List.length_append, List.length_cons]
        omega
      have hroll : t.intake.roll.Perm s.intake.roll := by
        have hended : t.intake.ledger.closings = s.intake.ledger.closings ++ [k] := by
          rw [ledger, ← hclosings]
          rfl
        rw [Intake.roll, Intake.roll, hended, hsplit, workers]
        simp only [List.map_append, List.map_cons, List.map_nil, List.append_assoc, hconnection, List.singleton_append]
        exact (List.perm_middle.symm).append_left _
      have hactive := h.active
      have hslots := h.slots
      rw [listener]
      refine ⟨h.options, ?_, ?_, h.nextConnection, hroll.trans h.roll, h.accepted, h.begun, h.rejected, h.rejections,
        h.failures, h.errors, h.decided⟩
      · show s.listener.stats.active - 1 = _
        omega
      · show s.listener.slots + 1 + _ = _
        omega

/-! ## Runs -/

theorem admits_step (h : s.listener.Admits o s.intake as) (m : Move) :
    (s.step m).listener.Admits o (s.step m).intake (as ++ (s.admission? m).toList) := by
  have hconsume (queue : Queue) (records : List Record) :
      (s.consume queue records).listener.Admits o (s.consume queue records).intake (as ++ []) := by
    rw [List.append_nil]
    unfold consume
    split
    · exact h.of_same rfl rfl rfl rfl rfl rfl rfl rfl
    · exact h
  have hsame {t : Site} (hlistener : t.listener = s.listener) (hroll : t.intake.roll = s.intake.roll)
      (hworkers : t.intake.workers.length = s.intake.workers.length) :
      t.listener.Admits o t.intake (as ++ []) := by
    rw [List.append_nil, hlistener]
    exact h.of_same rfl rfl rfl rfl rfl rfl hroll hworkers
  cases m with
  | listener allowance => exact h.course (Listener.course_step s.listener s.intake allowance)
  | worker connection allowance =>
      show Listener.Admits o (((s.intake.worker? connection).elim s (s.stepWorker · allowance)).listener)
        (((s.intake.worker? connection).elim s (s.stepWorker · allowance)).intake) (as ++ [])
      rw [List.append_nil]
      cases hw : s.intake.worker? connection with
      | none => exact h
      | some w => exact admits_stepWorker h (List.mem_of_find?_eq_some hw) allowance
  | leave => exact hsame rfl rfl rfl
  | stop =>
      rw [show s.admission? .stop = none from rfl, Option.toList_none, List.append_nil]
      exact h.of_same rfl rfl rfl rfl rfl rfl rfl rfl
  | elapse t => exact hsame rfl rfl rfl
  | _ => exact hconsume _ _

theorem admits_run (h : s.listener.Admits o s.intake as) (moves : List Move) :
    (s.run moves).listener.Admits o (s.run moves).intake (as ++ s.admissions moves) := by
  induction moves generalizing s as with
  | nil => exact (List.append_nil as).symm ▸ h
  | cons m moves ih =>
      rw [admissions, ← List.append_assoc]
      exact ih (admits_step h m)

/-! ## The report -/

/-- A listener that has stopped has reported what it has counted. -/
def Reported (l : Listener) : Prop :=
  ∀ failure report, l.phase = .stopped failure report → report.accepted = l.stats.accepted ∧
    report.rejected = l.stats.rejected ∧ report.acceptErrors = l.stats.acceptErrors

theorem reported_of_course {l l' : Listener} {i i' : Intake} {got : Option LogIntake.Accepted} (h : Reported l)
    (hcourse : l.Course i got l' i') : Reported l' := by
  intro failure report hstopped
  cases hcourse with
  | waits => exact h failure report hstopped
  | opens log phase => cases hstopped
  | told log phase cancelled => cases hstopped
  | finishes deadline cause phase ended =>
      rw [l.phase_finish] at hstopped
      rw [l.stats_finish]
      cases hstopped
      exact ⟨rfl, rfl, rfl⟩
  | rejects peer steps rest phase full => cases phase.symm.trans hstopped
  | serves peer steps rest phase free => cases phase.symm.trans hstopped
  | backsOff cause rest phase mild => cases hstopped
  | breaks cause rest log phase grave => cases hstopped

/-- What moves that are not the listener's do to it. -/
theorem listener_step (s : Site) (m : Move) :
    (∃ allowance, m = .listener allowance) ∨
      ((s.step m).listener.phase = s.listener.phase ∧
        (s.step m).listener.stats.accepted = s.listener.stats.accepted ∧
        (s.step m).listener.stats.rejected = s.listener.stats.rejected ∧
        (s.step m).listener.stats.acceptErrors = s.listener.stats.acceptErrors) := by
  have hconsume (queue : Queue) (records : List Record) : (s.consume queue records).listener = s.listener := by
    unfold consume
    split <;> rfl
  cases m with
  | listener allowance => exact Or.inl ⟨allowance, rfl⟩
  | worker connection allowance =>
      refine Or.inr ?_
      simp only [step]
      cases s.intake.worker? connection with
      | none => exact ⟨rfl, rfl, rfl, rfl⟩
      | some w =>
          rw [Option.elim_some]
          cases s.worked_stepWorker w allowance with
          | left v next workers queue ledger listener => rw [listener]; exact ⟨rfl, rfl, rfl, rfl⟩
          | ended k next workers queue ledger listener => rw [listener]; exact ⟨rfl, rfl, rfl, rfl⟩
  | leave => exact Or.inr ⟨rfl, rfl, rfl, rfl⟩
  | stop => exact Or.inr ⟨rfl, rfl, rfl, rfl⟩
  | elapse t => exact Or.inr ⟨rfl, rfl, rfl, rfl⟩
  | _ => exact Or.inr (by simp [step, hconsume])

theorem reported_step (h : Reported s.listener) (m : Move) : Reported (s.step m).listener := by
  rcases s.listener_step m with ⟨allowance, rfl⟩ | ⟨hphase, haccepted, hrejected, herrors⟩
  · exact reported_of_course h (Listener.course_step s.listener s.intake allowance)
  · intro failure report hstopped
    rw [haccepted, hrejected, herrors]
    exact h failure report (hphase ▸ hstopped)

theorem reported_run (h : Reported s.listener) (moves : List Move) : Reported (s.run moves).listener := by
  induction moves generalizing s with
  | nil => exact h
  | cons m moves ih => exact ih (reported_step h m)

variable {failure : Option IoError} {report : ListenerReport}

theorem stopped_step (h : s.listener.phase = .stopped failure report) (m : Move) :
    (s.step m).listener.phase = .stopped failure report := by
  rcases s.listener_step m with ⟨allowance, rfl⟩ | ⟨hphase, -⟩
  · rw [← h]
    exact congrArg _ ((Listener.course_step s.listener s.intake allowance).of_stopped h).1
  · exact hphase.trans h

theorem stopped_run (h : s.listener.phase = .stopped failure report) (moves : List Move) :
    (s.run moves).listener.phase = .stopped failure report := by
  induction moves generalizing s with
  | nil => exact h
  | cons m moves ih => exact ih (stopped_step h m)

/-- The step with which a listener stops tells how many workers there are then. -/
theorem unfinished_of_course {l l' : Listener} {i i' : Intake} {got : Option LogIntake.Accepted}
    (hcourse : l.Course i got l' i') (hrunning : l.hasStopped = false)
    (hstopped : l'.phase = .stopped failure report) :
    report.unfinished = i.workers.length := by
  cases hcourse with
  | waits => simp [Listener.hasStopped, hstopped] at hrunning
  | opens log phase => cases hstopped
  | told log phase cancelled => cases hstopped
  | finishes deadline cause phase ended =>
      rw [l.phase_finish] at hstopped
      cases hstopped
      rfl
  | rejects peer steps rest phase full => cases phase.symm.trans hstopped
  | serves peer steps rest phase free => cases phase.symm.trans hstopped
  | backsOff cause rest phase mild => cases hstopped
  | breaks cause rest log phase grave => cases hstopped

/-- A listener that has stopped in a run has done so in a step of its own. -/
theorem exists_last_step (hrunning : s.listener.hasStopped = false) (moves : List Move)
    (hstopped : (s.run moves).listener.phase = .stopped failure report) :
    ∃ before allowance after, moves = before ++ .listener allowance :: after ∧
      (s.run before).listener.hasStopped = false ∧
      ((s.run before).step (.listener allowance)).listener.phase = .stopped failure report ∧
      report.unfinished = (s.run before).intake.workers.length := by
  have hgoing : ¬ s.listener.hasStopped = true := by simp [hrunning]
  have hend : (s.run moves).listener.hasStopped = true := by simp [Listener.hasStopped, hstopped]
  obtain ⟨before, m, after, rfl, hnot, hnow⟩ := exists_first step (·.listener.hasStopped = true) s moves hgoing hend
  change ¬ (s.run before).listener.hasStopped = true at hnot
  change ((s.run before).step m).listener.hasStopped = true at hnow
  have hphase : ((s.run before).step m).listener.phase = .stopped failure report := by
    rw [run, List.foldl_append] at hstopped
    cases hlast : ((s.run before).step m).listener.phase with
    | stopped cause other => exact (stopped_run hlast after).symm.trans hstopped
    | _ => simp [Listener.hasStopped, hlast] at hnow
  rcases (s.run before).listener_step m with ⟨allowance, rfl⟩ | ⟨hsame, -⟩
  · have hcourse := Listener.course_step (s.run before).listener (s.run before).intake allowance
    have hbefore : (s.run before).listener.hasStopped = false := by simpa using hnot
    exact ⟨before, allowance, after, rfl, hbefore, hphase, unfinished_of_course hcourse hbefore hphase⟩
  · rw [hphase] at hsame
    simp [Listener.hasStopped, ← hsame] at hnot

/-- In every run there are as many workers as the listener counts, and never more than there may be; each slot is
free or has its worker, and a worker that ends gives back one. A connection is turned away exactly when all slots
are taken. All others get workers with the numbers from 1 on, in the order in which they have come. What the listener
has counted at the end is what it reports. -/
theorem admits_up_to_limit (o : ListenerOptions) (queue : QueueOptions) (localAddress : Option SocketAddress)
    (offers : List Offer) (moves : List Move) :
    let s := (start o queue localAddress offers).run moves
    let as := (start o queue localAddress offers).admissions moves
    let taken := as.filterMap (·.taken?)
    s.intake.workers.length = s.listener.stats.active ∧
      s.listener.stats.active ≤ o.maxConnections ∧
      s.listener.slots + s.listener.stats.active = o.maxConnections ∧
      s.listener.slots + s.listener.stats.accepted = o.maxConnections + s.intake.ledger.closings.length ∧
      (∀ a ∈ as, a.accepted.isConnection = true → (a.begun = [] ↔ a.live = o.maxConnections)) ∧
      s.listener.stats.accepted + s.listener.stats.rejected = (as.filter (·.accepted.isConnection)).length ∧
      s.listener.stats.accepted = taken.length ∧
      as.flatMap (·.begun) = taken.mapIdx (fun k c => Worker.start (k + 1) c.1 o.worker c.2) ∧
      s.listener.nextConnection = s.listener.stats.accepted + 1 ∧
      s.intake.roll.Perm (List.range' 1 s.listener.stats.accepted) ∧
      s.listener.rejected = as.filterMap (·.rejected?) ∧
      s.listener.stats.rejected = s.listener.rejected.length ∧
      s.listener.acceptErrors = as.filterMap (·.failure?) ∧
      s.listener.stats.acceptErrors = s.listener.acceptErrors.length ∧
      ∀ failure report, s.listener.phase = .stopped failure report →
        report.accepted = s.listener.stats.accepted ∧
          report.rejected = s.listener.stats.rejected ∧
          report.acceptErrors = s.listener.stats.acceptErrors ∧
          ∃ before allowance after, moves = before ++ .listener allowance :: after ∧
            ((start o queue localAddress offers).run before).listener.hasStopped = false ∧
            (((start o queue localAddress offers).run before).step (.listener allowance)).listener.phase
              = .stopped failure report ∧
            report.unfinished = ((start o queue localAddress offers).run before).intake.workers.length := by
  intro s as taken
  have h : s.listener.Admits o s.intake ([] ++ as) :=
    admits_run (Listener.admits_start o localAddress offers (.start queue)) moves
  rw [List.nil_append] at h
  have hreported : Reported s.listener := reported_run (fun _ _ hstopped => by cases hstopped) moves
  have hactive := h.active
  have hslots := h.slots
  have hroll : s.intake.ledger.closings.length + s.intake.workers.length = s.listener.stats.accepted := by
    simpa [Intake.roll] using h.roll.length_eq
  refine ⟨hactive.symm, by omega, by omega, by omega, fun a ha => (h.decided a ha).2, ?_, h.accepted, h.begun,
    h.nextConnection, h.roll, h.rejected, h.rejections, h.failures, h.errors, fun failure report hstopped => ?_⟩
  · rw [h.rejections, h.accepted, h.rejected]
    exact Listener.length_taken_add_rejected as
  · obtain ⟨haccepted, hrejected, herrors⟩ := hreported failure report hstopped
    obtain ⟨before, allowance, after, hmoves, hrunning, hlast, hunfinished⟩ := exists_last_step rfl moves hstopped
    exact ⟨haccepted, hrejected, herrors, before, allowance, after, hmoves, hrunning, hlast, hunfinished⟩

end Site

end LogIntake
