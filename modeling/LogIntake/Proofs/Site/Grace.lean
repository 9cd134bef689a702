import LogIntake.Proofs.Site.Winding
import Mathlib.Algebra.GroupWithZero.Nat

/-!
# Shutdown within the grace period

The listener waits for the workers no longer than its grace period. How much is left to do until it stops falls with
everything that brings the site on (`remaining_happen`), and until then there is always something that does, so it
stops. A worker that is left then has been waiting in one push all the time.
-/

namespace LogIntake.Site

variable {o : ListenerOptions} {qo : QueueOptions} {signal : Instant} {s : Site} {m : Happening}

/-! ## What is left to do -/

/-- How often something brings the site on before its listener has stopped. -/
def efforts (s : Site) : List Happening → Nat
  | [] => 0
  | m :: hs => (s.advances m && !s.listener.hasStopped).toNat + (s.happen m).efforts hs

/-- How many steps and units of time there may be until the listener has stopped. -/
def remaining (s : Site) (deadline : Instant) : Nat :=
  (s.intake.workers.map Worker.distance).sum + s.listener.distance + (deadline.nanos - s.intake.now.nanos)

theorem Winding.distance_stepListener (h : s.Winding o qo signal) (allowance : Nat) :
    (s.stepListener allowance).listener.distance + (allowance ≠ 0 && !s.listener.rests s.intake).toNat
      ≤ s.listener.distance := by
  have hle := (h.told.course (h.course allowance)).distance
  cases hidle : allowance ≠ 0 && !s.listener.rests s.intake with
  | false => simpa using hle
  | true =>
      simp only [Bool.and_eq_true, decide_eq_true_eq, Bool.not_eq_true'] at hidle
      exact h.told.nearer hidle.1 hidle.2

theorem Winding.distance_stepWorker (h : s.Winding o qo signal) {w : Worker} (hw : w ∈ s.intake.workers)
    (allowance : Nat) :
    ((s.stepWorker w allowance).intake.workers.map Worker.distance).sum
      + (allowance ≠ 0 && !w.rests s.intake).toNat ≤ (s.intake.workers.map Worker.distance).sum := by
  have hconnection := (w.balanced_step s.intake.now s.intake.stopping s.intake.queue allowance).going
  have hworked := s.worked_stepWorker w allowance
  obtain ⟨before, after, hsplit, hreplace, hfilter⟩ := Intake.exists_split h.orderly.nodup hw
  have hone := Bool.toNat_le (allowance ≠ 0 && !w.rests s.intake)
  generalize s.stepWorker w allowance = t at *
  cases hworked with
  | left v next workers queue ledger listener =>
      have hnearer : v.distance + (allowance ≠ 0 && !w.rests s.intake).toNat ≤ w.distance := by
        rw [h.stopping] at next
        rcases Worker.nearer_step next with ⟨rfl, hspent | hwaits⟩ | hlt
        · simp [hspent]
        · simp [(Worker.rests_iff_waits h.stopping).mpr hwaits]
        · omega
      rw [workers, hreplace v (hconnection v next).1, hsplit]
      simp only [List.map_append, List.map_cons, List.sum_append, List.sum_cons]
      omega
  | ended k next workers queue ledger listener =>
      have hpos := w.distance_pos
      rw [workers, hfilter, hsplit]
      simp only [List.map_append, List.map_cons, List.sum_append, List.sum_cons]
      omega

/-- Whatever happens, there is no more left to do, and less if it brings the site on. -/
theorem Winding.remaining_happen (h : s.Winding o qo signal) (hallows : s.allows m = true) :
    (s.happen m).remaining (signal.plus o.shutdownGrace) + (s.advances m && !s.listener.hasStopped).toNat
      ≤ s.remaining (signal.plus o.shutdownGrace) := by
  have hand (b c : Bool) : (b && c).toNat ≤ b.toNat := by cases b <;> cases c <;> decide
  unfold remaining
  cases s.passes m with
  | listener allowance =>
      have hdistance := h.distance_stepListener allowance
      obtain ⟨hnow, hworkers, -⟩ := (h.course allowance).quiet
      have hadvances := hand (s.advances (.own (.listener allowance))) (!s.listener.hasStopped)
      simp only [advances] at hadvances
      simp only [Site.happen, step, hnow, hworkers, advances]
      omega
  | worker connection allowance w served =>
      have hlistener : (s.stepWorker w allowance).listener.distance = s.listener.distance := by
        simp only [Listener.distance, s.phase_stepWorker]
      have hdistance := h.distance_stepWorker (List.mem_of_find?_eq_some served) allowance
      have hadvances := hand (s.advances (.own (.worker connection allowance))) (!s.listener.hasStopped)
      simp only [advances, served, Option.any_some] at hadvances
      simp only [happen_of_served served, (s.clock_stepWorker w allowance).1, hlistener, advances, served,
        Option.any_some]
      omega
  | elapse t =>
      have hle : s.intake.now.nanos ≤ t.nanos := by
        simp only [allows, Bool.and_eq_true, decide_eq_true_eq] at hallows
        exact hallows.1.2
      have hlater := h.elapse hallows
      show (s.intake.workers.map Worker.distance).sum + s.listener.distance + (_ - t.nanos) + _ ≤ _
      cases hadvances : s.advances (.own (.elapse t)) && !s.listener.hasStopped with
      | false =>
          simp only [Bool.toNat_false]
          omega
      | true =>
          simp only [Bool.and_eq_true, Bool.not_eq_true', advances, decide_eq_true_eq] at hadvances
          simp only [allows, rests, Bool.and_eq_true] at hallows
          obtain ⟨deadline, failure, hphase, -⟩ := h.told.stopping_of_rests hallows.1.1.1 hadvances.2
          obtain ⟨rfl, hdeadline⟩ := hlater.deadline deadline failure hphase
          change t.nanos ≤ _ at hdeadline
          simp only [Bool.toNat_true]
          omega
  | aside m haside idle =>
      have hdistance : (s.happen m).listener.distance = s.listener.distance := by
        simp only [Listener.distance, haside.phase]
      simp [haside.now, haside.workers, hdistance, idle]

theorem Winding.efforts_le (h : s.Winding o qo signal) {hs : List Happening} (htimed : s.isTimed hs = true) :
    s.efforts hs ≤ s.remaining (signal.plus o.shutdownGrace) := by
  induction hs generalizing s with
  | nil => exact Nat.zero_le _
  | cons m hs ih =>
      simp only [isTimed, Bool.and_eq_true] at htimed
      have hless := h.remaining_happen htimed.1
      have hrest := ih (h.happen htimed.1) htimed.2
      rw [efforts]
      omega

theorem sum_distance_le (ws : List Worker) : (ws.map Worker.distance).sum ≤ 3 * ws.length := by
  induction ws with
  | nil => exact Nat.zero_le _
  | cons w ws ih =>
      have hone := w.distance_le
      rw [List.map_cons, List.sum_cons, List.length_cons]
      omega

theorem remaining_le (s : Site) (grace : Duration) :
    s.remaining (s.intake.now.plus grace) ≤ 3 * s.intake.workers.length + 3 + grace.nanos := by
  have hworkers := sum_distance_le s.intake.workers
  have hlistener : s.listener.distance ≤ 3 := by
    cases hphase : s.listener.phase with
    | _ => simp [Listener.distance, hphase]
  have hgrace : (s.intake.now.plus grace).nanos - s.intake.now.nanos = grace.nanos := Nat.add_sub_cancel_left ..
  rw [remaining, hgrace]
  omega

theorem Orderly.worker?_of_mem (h : s.Orderly o qo) {w : Worker} (hw : w ∈ s.intake.workers) :
    s.intake.worker? w.connection = some w := by
  cases hv : s.intake.worker? w.connection with
  | none => simpa using List.find?_eq_none.mp hv w hw
  | some v =>
      have hsame : v.connection = w.connection := by simpa using List.find?_some hv
      exact congrArg some (List.inj_on_of_nodup_map h.nodup (List.mem_of_find?_eq_some hv) hw hsame)

/-- As long as the listener has not stopped, there is something that brings the site on. -/
theorem Winding.exists_advance (h : s.Winding o qo signal) (hrunning : s.listener.hasStopped = false) :
    ∃ m, s.allows m = true ∧ s.advances m = true := by
  cases hlistener : s.listener.rests s.intake with
  | false => exact ⟨.own (.listener 1), rfl, by simp [advances, hlistener]⟩
  | true =>
      by_cases hworkers : ∀ w ∈ s.intake.workers, w.rests s.intake = true
      · have hrests : s.rests = true := by simpa [rests, hlistener] using hworkers
        refine ⟨.own (.elapse ⟨s.intake.now.nanos + 1⟩), ?_, by simp [advances]⟩
        obtain ⟨deadline, failure, hphase, hearly⟩ := h.told.stopping_of_rests hlistener hrunning
        have hnext : s.intake.workers.filterMap Worker.nextTime = [] := by
          refine List.filterMap_eq_nil_iff.mpr fun w hw => ?_
          obtain ⟨-, v, -, hpushing, -⟩ := h.stuck hrests hw
          simp [Worker.nextTime, hpushing]
        have hwaiting : ∀ v ∈ s.intake.queue.waiting, s.intake.now.nanos + 1 ≤ v.deadline.nanos :=
          h.orderly.queue.punctual.early
        simpa [allows, hrests, timers, Listener.nextTime, hphase, hnext] using ⟨hearly, hwaiting⟩
      · simp only [not_forall, Bool.not_eq_true] at hworkers
        obtain ⟨w, hw, hgoing⟩ := hworkers
        exact ⟨.own (.worker w.connection 1), rfl, by simp [advances, h.orderly.worker?_of_mem hw, hgoing]⟩

/-! ## Who is left -/

theorem connections_happen_of_told (h : s.listener.Told) (m : Happening) :
    (s.happen m).intake.workers.map (·.connection) ⊆ s.intake.workers.map (·.connection) := by
  cases s.passes m with
  | listener allowance =>
      have hcourse := Listener.course_step s.listener s.intake allowance
      rw [h.receives] at hcourse
      obtain ⟨-, hworkers, -⟩ := hcourse.quiet
      exact hworkers ▸ List.Subset.refl _
  | worker connection allowance w served =>
      rw [happen_of_served served]
      cases s.worked_stepWorker w allowance with
      | left v next workers queue ledger listener =>
          rw [workers, Intake.map_connection_replace]
          exact List.Subset.refl _
      | ended k next workers queue ledger listener =>
          rw [workers]
          exact List.map_subset _ (List.filter_subset_self _)
  | elapse t => exact List.Subset.refl _
  | aside m haside idle => exact haside.workers ▸ List.Subset.refl _

theorem Winding.connections_happen (h : s.Winding o qo signal) (m : Happening) :
    (s.happen m).intake.workers.map (·.connection) ⊆ s.intake.workers.map (·.connection) :=
  connections_happen_of_told h.told m

theorem Winding.connections_after (h : s.Winding o qo signal) {hs : List Happening} (htimed : s.isTimed hs = true) :
    (s.after hs).intake.workers.map (·.connection) ⊆ s.intake.workers.map (·.connection) := by
  induction hs generalizing s with
  | nil => exact List.Subset.refl _
  | cons m hs ih =>
      simp only [isTimed, Bool.and_eq_true] at htimed
      exact List.Subset.trans (ih (h.happen htimed.1) htimed.2) (h.connections_happen m)

/-! ## The end -/

theorem stopped_happen {failure : Option IoError} {report : ListenerReport}
    (h : s.listener.phase = .stopped failure report) (m : Happening) :
    (s.happen m).listener.phase = .stopped failure report := by
  cases m with
  | own m => exact stopped_step h m
  | others op => exact h

theorem stopped_after {failure : Option IoError} {report : ListenerReport}
    (h : s.listener.phase = .stopped failure report) (hs : List Happening) :
    (s.after hs).listener.phase = .stopped failure report := by
  induction hs generalizing s with
  | nil => exact h
  | cons m hs ih => exact ih (stopped_happen h m)

/-- The step with which a listener stops. -/
theorem Winding.finishes (h : s.Winding o qo signal) (hrunning : s.listener.hasStopped = false)
    {failure : Option IoError} {report : ListenerReport}
    (hstopped : (s.happen m).listener.phase = .stopped failure report) :
    (∃ allowance, m = .own (.listener allowance)) ∧
      s.listener.phase = .stopping (signal.plus o.shutdownGrace) failure ∧
      report.unfinished = s.intake.workers.length ∧
      (s.intake.workers = [] ∨ s.intake.now = signal.plus o.shutdownGrace) := by
  have hgoing {l : Listener} (hphase : l.phase = s.listener.phase) : l.phase ≠ .stopped failure report := by
    intro hl
    simp [Listener.hasStopped, ← hphase, hl] at hrunning
  cases s.passes m with
  | listener allowance =>
      refine ⟨⟨allowance, rfl⟩, ?_⟩
      have hcourse := h.course allowance
      change (s.stepListener allowance).listener.phase = _ at hstopped
      generalize s.stepListener allowance = t at *
      generalize t.listener = l', t.intake = i' at *
      cases hcourse with
      | waits => exact absurd hstopped (hgoing rfl)
      | opens log phase => cases hstopped
      | told log phase cancelled => cases hstopped
      | finishes deadline cause phase ended =>
          rw [s.listener.phase_finish] at hstopped
          cases hstopped
          obtain ⟨rfl, hle⟩ := h.deadline deadline failure phase
          exact ⟨phase, rfl, ended.imp_right fun hover => congrArg Duration.mk (Nat.le_antisymm hle hover)⟩
  | worker connection allowance w served =>
      rw [happen_of_served served] at hstopped
      exact absurd hstopped (hgoing (s.phase_stepWorker w allowance))
  | elapse t => exact absurd hstopped (hgoing rfl)
  | aside m haside idle => exact absurd hstopped (hgoing haside.phase)

/-- Only time sets the clock. -/
theorem Winding.now_happen (h : s.Winding o qo signal) (hmoved : (s.happen m).intake.now ≠ s.intake.now) :
    m = .own (.elapse (s.happen m).intake.now) := by
  cases s.passes m with
  | listener allowance => exact absurd (h.course allowance).quiet.1 hmoved
  | worker connection allowance w served =>
      rw [happen_of_served served] at hmoved
      exact absurd (s.clock_stepWorker w allowance).1 hmoved
  | elapse t => rfl
  | aside m haside idle => exact absurd haside.now hmoved

/-- Who is left when the grace period has passed was stuck before the clock came to its end. -/
theorem Winding.exists_rest (h : s.Winding o qo signal) {hs : List Happening} (htimed : s.isTimed hs = true)
    {limit : Instant} (hbefore : s.intake.now ≠ limit) (hlimit : (s.after hs).intake.now = limit) :
    ∃ early late, hs = early ++ .own (.elapse limit) :: late ∧ (s.after early).rests = true ∧
      (s.after early).intake.now.nanos < limit.nanos ∧
      ∀ w ∈ (s.after hs).intake.workers, ∃ v ∈ (s.after early).intake.workers, v.connection = w.connection ∧
        (s.after early).Stuck v (signal.plus qo.pushTimeout) := by
  obtain ⟨early, m, late, rfl, hnot, hat⟩ := exists_first Site.happen (·.intake.now = limit) s hs hbefore hlimit
  change ¬ (s.after early).intake.now = limit at hnot
  change ((s.after early).happen m).intake.now = limit at hat
  rw [isTimed_append, Bool.and_eq_true, isTimed, Bool.and_eq_true] at htimed
  obtain ⟨hearly, hallows, hlate⟩ := htimed
  have hwinding := h.after hearly
  obtain rfl : m = .own (.elapse limit) := hat ▸ hwinding.now_happen (hat ▸ Ne.symm hnot)
  have hrests := hallows
  simp only [allows, Bool.and_eq_true, decide_eq_true_eq] at hrests
  refine ⟨early, late, rfl, hrests.1.1, Nat.lt_of_le_of_ne hrests.1.2 fun heq => hnot (congrArg Duration.mk heq),
    fun w hw => ?_⟩
  rw [after_append] at hw
  have hstill := List.Subset.trans ((hwinding.happen hallows).connections_after hlate) (hwinding.connections_happen _)
  obtain ⟨v, hv, hconnection⟩ := List.mem_map.mp (hstill (List.mem_map_of_mem hw))
  exact ⟨v, hv, hconnection, hwinding.stuck hrests.1.1 hv⟩

/-- A listener that has stopped has done so in a step of its own. -/
theorem Winding.exists_finish (h : s.Winding o qo signal) (hrunning : s.listener.hasStopped = false)
    {hs : List Happening} (htimed : s.isTimed hs = true) {failure : Option IoError} {report : ListenerReport}
    (hstopped : (s.after hs).listener.phase = .stopped failure report) :
    ∃ first allowance rest, hs = first ++ .own (.listener allowance) :: rest ∧ s.isTimed first = true ∧
      (s.after first).listener.phase = .stopping (signal.plus o.shutdownGrace) failure ∧
      report.unfinished = (s.after first).intake.workers.length ∧
      ((s.after first).intake.workers = [] ∨ (s.after first).intake.now = signal.plus o.shutdownGrace) ∧
      (s.after hs).intake.workers.map (·.connection) ⊆ (s.after first).intake.workers.map (·.connection) := by
  have hgoing : ¬ s.listener.hasStopped = true := by simp [hrunning]
  have hend : (s.after hs).listener.hasStopped = true := by simp [Listener.hasStopped, hstopped]
  obtain ⟨first, m, rest, rfl, hnot, hnow⟩ :=
    exists_first Site.happen (·.listener.hasStopped = true) s hs hgoing hend
  change ¬ (s.after first).listener.hasStopped = true at hnot
  change ((s.after first).happen m).listener.hasStopped = true at hnow
  rw [isTimed_append, Bool.and_eq_true, isTimed, Bool.and_eq_true] at htimed
  obtain ⟨hfirst, hallows, hrest⟩ := htimed
  have hwinding := h.after hfirst
  have hphase : ((s.after first).happen m).listener.phase = .stopped failure report := by
    rw [after_append] at hstopped
    cases hlast : ((s.after first).happen m).listener.phase with
    | stopped cause other => exact (stopped_after hlast rest).symm.trans hstopped
    | _ => simp [Listener.hasStopped, hlast] at hnow
  obtain ⟨⟨allowance, rfl⟩, hstopping, hunfinished, hover⟩ := hwinding.finishes (by simpa using hnot) hphase
  refine ⟨first, allowance, rest, rfl, hfirst, hstopping, hunfinished, hover, ?_⟩
  rw [after_append]
  exact List.Subset.trans ((hwinding.happen hallows).connections_after hrest) (hwinding.connections_happen _)

/-- Every push has an answer before a grace period that begins with it is over. -/
def Brief (o : ListenerOptions) (qo : QueueOptions) : Prop :=
  qo.backpressure = .reject ∨ qo.pushTimeout.nanos < o.shutdownGrace.nanos

theorem Winding.workers_eq_nil (h : s.Winding o qo signal) (hgrace : 0 < o.shutdownGrace.nanos) (hbrief : Brief o qo)
    (hover : (signal.plus o.shutdownGrace).nanos ≤ s.intake.now.nanos) : s.intake.workers = [] := by
  by_contra hne
  change signal.nanos + o.shutdownGrace.nanos ≤ _ at hover
  rcases hbrief with hreject | hshort
  · rw [h.rejected hreject hne] at hover
    omega
  · have htime := h.inTime hne
    omega

theorem Winding.now_le (h : s.Winding o qo signal) (hrunning : s.listener.hasStopped = false) :
    s.intake.now.nanos ≤ (signal.plus o.shutdownGrace).nanos := by
  cases hgoing : s.listener.isLeaving with
  | false =>
      rw [h.prompt hgoing]
      exact Nat.le_add_right _ _
  | true =>
      cases hphase : s.listener.phase with
      | stopping deadline failure =>
          obtain ⟨rfl, hle⟩ := h.deadline deadline failure hphase
          exact hle
      | stopped failure report => simp [Listener.hasStopped, hphase] at hrunning
      | _ => simp [Listener.isLeaving, hphase] at hgoing

/-- From the signal to shut down on, or from a failure of the listening socket, every worker that is left when nothing
can go on waits in one push into a full queue, which has begun by then. The listener has stopped when the workers have
ended or the grace period is over, and a worker that has not ended then was stuck like that until the last moment. If
the queue rejects, or pushes wait less long than the grace period, there are none. Only so much can go on until the
listener stops, and until then something can. -/
theorem winds_up_within_grace (o : ListenerOptions) (qo : QueueOptions) (localAddress : Option SocketAddress)
    (offers : List Offer) (before hs : List Happening) (m : Happening) (hgrace : 0 < o.shutdownGrace.nanos)
    (htimed : (start o qo localAddress offers).isTimed (before ++ m :: hs) = true)
    (hbefore : ((start o qo localAddress offers).after before).intake.stopping = false)
    (hsignal : (((start o qo localAddress offers).after before).happen m).intake.stopping = true) :
    let told := ((start o qo localAddress offers).after before).happen m
    let signal := told.intake.now
    let limit := signal.plus o.shutdownGrace
    let s := told.after hs
    (s.rests = true → ∀ w ∈ s.intake.workers, s.Stuck w (signal.plus qo.pushTimeout)) ∧
      (∀ failure report, s.listener.phase = .stopped failure report →
        ∃ first allowance rest, hs = first ++ .own (.listener allowance) :: rest ∧
          let u := told.after first
          u.listener.phase = .stopping limit failure ∧ report.unfinished = u.intake.workers.length ∧
            (u.intake.workers = [] ∨ (u.intake.now = limit ∧
              ∃ early late, first = early ++ .own (.elapse limit) :: late ∧
                let r := told.after early
                r.rests = true ∧ r.intake.now.nanos < limit.nanos ∧
                  ∀ w ∈ u.intake.workers, ∃ v ∈ r.intake.workers, v.connection = w.connection ∧
                    r.Stuck v (signal.plus qo.pushTimeout)))) ∧
      (Brief o qo →
        (limit.nanos ≤ s.intake.now.nanos → s.intake.workers = []) ∧
          ∀ failure report, s.listener.phase = .stopped failure report →
            report.unfinished = 0 ∧ s.intake.workers = [] ∧ s.listener.stats.active = 0) ∧
      told.efforts hs ≤ 3 * told.intake.workers.length + 3 + o.shutdownGrace.nanos ∧
      (s.listener.hasStopped = false →
        s.intake.now.nanos ≤ limit.nanos ∧ ∃ m, s.allows m = true ∧ s.advances m = true) := by
  intro told signal limit s
  rw [isTimed_append, Bool.and_eq_true, isTimed, Bool.and_eq_true] at htimed
  obtain ⟨hfirst, hallows, hrest⟩ := htimed
  have horderly := (orderly_start o qo localAddress offers).after hfirst
  obtain ⟨htold, hrunning⟩ := winding_of_signal horderly hallows hbefore hsignal
  have hwinding : s.Winding o qo signal := htold.after hrest
  refine ⟨fun hrests w hw => hwinding.stuck hrests hw, fun failure report hstopped => ?_, fun hbrief => ⟨?_, ?_⟩, ?_,
    ?_⟩
  · obtain ⟨first, allowance, rest, rfl, hfirst, hstopping, hunfinished, hover, -⟩ :=
      htold.exists_finish hrunning hrest hstopped
    refine ⟨first, allowance, rest, rfl, hstopping, hunfinished, hover.imp_right fun hlimit => ⟨hlimit, ?_⟩⟩
    refine htold.exists_rest hfirst (fun hnow => ?_) hlimit
    have hnanos := congrArg Duration.nanos hnow
    change signal.nanos = signal.nanos + o.shutdownGrace.nanos at hnanos
    omega
  · exact hwinding.workers_eq_nil hgrace hbrief
  · intro failure report hstopped
    obtain ⟨first, allowance, rest, rfl, hfirst, -, hunfinished, hover, hfewer⟩ :=
      htold.exists_finish hrunning hrest hstopped
    have hnobody : (told.after first).intake.workers = [] :=
      hover.elim id fun hlimit => (htold.after hfirst).workers_eq_nil hgrace hbrief (hlimit ▸ Nat.le_refl _)
    rw [hnobody] at hunfinished hfewer
    have hnone : s.intake.workers = [] := List.map_eq_nil_iff.mp (List.subset_nil.mp hfewer)
    obtain ⟨as, hadmits⟩ := hwinding.orderly.admits
    exact ⟨hunfinished, hnone, by rw [hadmits.active, hnone]; rfl⟩
  · exact Nat.le_trans (htold.efforts_le hrest) (told.remaining_le o.shutdownGrace)
  · exact fun hrunning => ⟨hwinding.now_le hrunning, hwinding.exists_advance hrunning⟩

/-- A queue with one place, and a connection with two records. -/
def narrow (pushTimeout : Duration) : Site :=
  let sent : Bytes := [60, 114, 101, 99, 62, 65, 60, 47, 114, 101, 99, 62, 60, 114, 101, 99, 62, 66, 60, 47, 114, 101,
    99, 62]
  start {} { capacity := 1, pushTimeout } none [⟨⟨0⟩, .connection (.v4 ⟨192, 0, 2, 10⟩ 40000) [.data sent]⟩]

/-- The worker pushes the first record, and the push of the other one waits. -/
def narrowBefore : List Happening :=
  [.own (.listener 128), .own (.listener 128), .own (.worker 1 128), .own (.worker 1 128), .own (.worker 1 128)]

def narrowAfter : List Happening :=
  [.own (.listener 128), .own (.elapse (.ofSecs 1)), .own (.worker 1 128), .own (.listener 128)]

theorem winds_up_narrow :
    let s := narrow (.ofSecs 1)
    let told := (s.after narrowBefore).happen (.own .stop)
    0 < ({} : ListenerOptions).shutdownGrace.nanos ∧
      s.isTimed (narrowBefore ++ .own .stop :: narrowAfter) = true ∧
      (s.after narrowBefore).intake.stopping = false ∧
      told.intake.stopping = true ∧
      told.intake.tickets = [0] ∧
      ∃ report, (told.after narrowAfter).listener.phase = .stopped none report ∧ report.unfinished = 0 ∧
        (told.after narrowAfter).intake.workers = [] ∧ (told.after narrowAfter).listener.stats.active = 0 := by
  have hgrace : 0 < ({} : ListenerOptions).shutdownGrace.nanos := by decide
  have htimed : (narrow (.ofSecs 1)).isTimed (narrowBefore ++ .own .stop :: narrowAfter) = true := by decide +kernel
  have hbefore : ((narrow (.ofSecs 1)).after narrowBefore).intake.stopping = false := by decide +kernel
  have hsignal : (((narrow (.ofSecs 1)).after narrowBefore).happen (.own .stop)).intake.stopping = true := by
    decide +kernel
  have htickets : (((narrow (.ofSecs 1)).after narrowBefore).happen (.own .stop)).intake.tickets = [0] := by
    decide +kernel
  have hphase : ((((narrow (.ofSecs 1)).after narrowBefore).happen (.own .stop)).after narrowAfter).listener.phase
      = .stopped none { localAddress := none, accepted := 1, rejected := 0, acceptErrors := 0, unfinished := 0 } := by
    decide +kernel
  obtain ⟨-, -, hbrief, -⟩ := winds_up_within_grace _ _ _ _ _ _ _ hgrace htimed hbefore hsignal
  have hshort : Brief {} { capacity := 1, pushTimeout := .ofSecs 1 } := Or.inr (by decide)
  exact ⟨hgrace, htimed, hbefore, hsignal, htickets, _, hphase, (hbrief hshort).2 none _ hphase⟩

/-- A push that waits as long as the listener may not have an answer in time. -/
example :
    let hs : List Happening := [.own (.listener 128), .own (.elapse (.ofSecs 5)), .own (.listener 128)]
    (narrow (.ofSecs 5)).isTimed (narrowBefore ++ .own .stop :: hs) = true ∧
      ((((narrow (.ofSecs 5)).after narrowBefore).happen (.own .stop)).after hs).listener.phase
        = .stopped none { localAddress := none, accepted := 1, rejected := 0, acceptErrors := 0, unfinished := 1 } := by
  decide +kernel

end LogIntake.Site
