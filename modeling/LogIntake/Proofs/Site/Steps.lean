import LogIntake.Proofs.Connection.Balance
import LogIntake.Proofs.Listener
import LogIntake.Proofs.Site

/-!
# All that a step can do

A step of the listener takes one of a few courses, and a step of a worker leaves the worker or ends it. What is
said here of a step is all that it does, so that later proofs need not open the steps again.
-/

namespace LogIntake

namespace Listener

/-- What accepting gives in a step of a listener, if the listener asks and something has come. -/
def receives (l : Listener) (i : Intake) (allowance : Nat) : Option Accepted :=
  match l.phase, l.offers with
  | .accepting, offer :: _ =>
    if allowance = 0 ∨ l.cancelled = true ∨ i.now.nanos < offer.at_.nanos then none else some offer.accepted
  | _, _ => none

/-- The courses of a step, with what accepting gives and what is left of the listener and the intake. -/
inductive Course (l : Listener) (i : Intake) : Option Accepted → Listener → Intake → Prop where
  | waits : Course l i none l i
  | opens (log : List LogLine) (phase : l.phase = .starting ∨ ∃ until_, l.phase = .backingOff until_) :
      Course l i none { l with phase := .accepting, log } i
  | told (log : List LogLine) (phase : l.phase = .accepting) (cancelled : l.cancelled = true) :
      Course l i none ({ l with log }.stop i none).1 i.stop
  | finishes (deadline : Instant) (failure : Option IoError) (phase : l.phase = .stopping deadline failure)
      (ended : i.workers = [] ∨ deadline.nanos ≤ i.now.nanos) : Course l i none (l.finish i failure) i
  | rejects (peer : SocketAddress) (steps : List Source.Step) (rest : List Offer) (phase : l.phase = .accepting)
      (full : l.slots = 0) :
      Course l i (some (.connection peer steps)) ({ l with offers := rest }.reject i peer).1
        ({ l with offers := rest }.reject i peer).2
  | serves (peer : SocketAddress) (steps : List Source.Step) (rest : List Offer) (phase : l.phase = .accepting)
      (free : l.slots ≠ 0) :
      Course l i (some (.connection peer steps)) ({ l with offers := rest }.serve i peer steps).1
        ({ l with offers := rest }.serve i peer steps).2
  | backsOff (cause : IoError) (rest : List Offer) (phase : l.phase = .accepting)
      (mild : cause.endsListening = false) :
      Course l i (some (.failed cause)) ({ l with offers := rest }.backOff i cause).1
        ({ l with offers := rest }.backOff i cause).2
  | breaks (cause : IoError) (rest : List Offer) (log : List LogLine) (phase : l.phase = .accepting)
      (grave : cause.endsListening = true) :
      Course l i (some (.failed cause)) ({ l with offers := rest, log }.stop i (some cause)).1 i.stop

theorem receives_of_accepting {l : Listener} {i : Intake} {allowance : Nat} (hphase : l.phase = .accepting)
    (hallowance : allowance ≠ 0) (hcancelled : ¬ l.cancelled = true) :
    l.receives i allowance = l.offers.head?.bind fun offer =>
      if i.now.nanos < offer.at_.nanos then none else some offer.accepted := by
  unfold receives
  rw [hphase]
  cases l.offers with
  | nil => rfl
  | cons offer rest =>
      by_cases hearly : i.now.nanos < offer.at_.nanos <;> simp [hallowance, hcancelled, hearly]

theorem course_accept (l : Listener) (i : Intake) (allowance : Nat) (hphase : l.phase = .accepting)
    (hallowance : allowance ≠ 0) (hcancelled : ¬ l.cancelled = true) :
    Course l i (l.receives i allowance) (l.accept i allowance).1 (l.accept i allowance).2.1 := by
  rw [receives_of_accepting hphase hallowance hcancelled]
  unfold accept
  cases l.offers with
  | nil => exact .waits
  | cons offer rest =>
      obtain ⟨at_, accepted⟩ := offer
      simp only [List.head?_cons, Option.bind_some]
      by_cases hearly : i.now.nanos < at_.nanos
      · rw [if_pos hearly, if_pos hearly]
        exact .waits
      · rw [if_neg hearly, if_neg hearly]
        cases accepted with
        | connection peer steps =>
            simp only [dispatch]
            split
            · next hslots => exact .rejects peer steps rest hphase hslots
            · next hslots => exact .serves peer steps rest hphase hslots
        | failed cause =>
            simp only
            split
            · next hgrave => exact .breaks cause rest _ hphase hgrave
            · next hmild => exact .backsOff cause rest hphase (Bool.eq_false_iff.mpr hmild)

theorem course_step (l : Listener) (i : Intake) (allowance : Nat) :
    Course l i (l.receives i allowance) (l.step i allowance).1 (l.step i allowance).2.1 := by
  have hidle (h : l.phase ≠ .accepting) : l.receives i allowance = none := by
    unfold receives
    split
    · next hphase _ => exact absurd hphase h
    · rfl
  unfold step
  cases hphase : l.phase with
  | starting =>
      rw [hidle (by rw [hphase]; exact Phase.noConfusion)]
      exact .opens _ (Or.inl hphase)
  | accepting =>
      simp only
      split
      · next hspent =>
          have hnone : l.receives i allowance = none := by
            unfold receives
            split
            · exact if_pos (Or.inl hspent)
            · rfl
          rw [hnone]
          exact .waits
      · next hallowance =>
          split
          · next hcancelled =>
              have hnone : l.receives i allowance = none := by
                unfold receives
                split
                · exact if_pos (Or.inr (Or.inl hcancelled))
                · rfl
              rw [hnone]
              exact .told _ hphase hcancelled
          · next hcancelled => exact course_accept l i allowance hphase hallowance hcancelled
  | backingOff until_ =>
      rw [hidle (by rw [hphase]; exact Phase.noConfusion)]
      simp only
      split
      · exact .waits
      · split
        · exact .opens l.log (Or.inr ⟨until_, hphase⟩)
        · split
          · exact .opens l.log (Or.inr ⟨until_, hphase⟩)
          · exact .waits
  | stopping deadline failure =>
      rw [hidle (by rw [hphase]; exact Phase.noConfusion)]
      simp only
      split
      · next hover =>
          refine .finishes deadline failure hphase ?_
          simpa [List.isEmpty_iff] using hover
      · exact .waits
  | stopped failure report =>
      rw [hidle (by rw [hphase]; exact Phase.noConfusion)]
      exact .waits

theorem phase_finish (l : Listener) (i : Intake) (failure : Option IoError) :
    (l.finish i failure).phase = .stopped failure
      { localAddress := l.localAddress, accepted := l.stats.accepted, rejected := l.stats.rejected
        acceptErrors := l.stats.acceptErrors, unfinished := i.workers.length } := by
  unfold finish
  split
  · rfl
  · rfl

theorem stats_finish (l : Listener) (i : Intake) (failure : Option IoError) :
    (l.finish i failure).stats = l.stats := by
  unfold finish
  split
  · rfl
  · rfl

/-- A listener that has stopped does nothing more. -/
theorem Course.of_stopped {l l' : Listener} {i i' : Intake} {got : Option Accepted} (h : Course l i got l' i')
    {failure : Option IoError} {report : ListenerReport} (hstopped : l.phase = .stopped failure report) :
    l' = l ∧ i' = i := by
  cases h with
  | waits => exact ⟨rfl, rfl⟩
  | opens log phase =>
      rcases phase with phase | ⟨until_, phase⟩
      · cases phase.symm.trans hstopped
      · cases phase.symm.trans hstopped
  | _ => next phase _ => cases phase.symm.trans hstopped

end Listener

/-- A worker among the workers, the others before and after it, and what a step of it can make of them. -/
theorem Intake.exists_split {i : Intake} {w : Worker} (h : (i.workers.map (·.connection)).Nodup)
    (hw : w ∈ i.workers) :
    ∃ before after, i.workers = before ++ w :: after ∧
      (∀ v : Worker, v.connection = w.connection → (i.replace v).workers = before ++ v :: after) ∧
      i.workers.filter (·.connection != w.connection) = before ++ after := by
  obtain ⟨before, after, hsplit⟩ := List.append_of_mem hw
  rw [hsplit, List.map_append, List.map_cons, List.nodup_append] at h
  obtain ⟨-, hafter, hbefore⟩ := h
  have hne (u : Worker) (hu : u ∈ before ++ after) : u.connection ≠ w.connection := by
    rcases List.mem_append.mp hu with hu | hu
    · exact hbefore _ (List.mem_map_of_mem hu) _ List.mem_cons_self
    · exact fun heq => (List.nodup_cons.mp hafter).1 (heq ▸ List.mem_map_of_mem hu)
  refine ⟨before, after, hsplit, fun v hv => ?_, ?_⟩
  · have hkept (us : List Worker) (hus : ∀ u ∈ us, u ∈ before ++ after) :
        us.map (fun u => if u.connection = v.connection then v else u) = us :=
      (List.map_congr_left fun u hu => if_neg (hv ▸ hne u (hus u hu))).trans (List.map_id us)
    rw [Intake.replace, hsplit, List.map_append, List.map_cons, if_pos hv.symm,
      hkept _ fun u => List.mem_append_left _, hkept _ fun u => List.mem_append_right _]
  · have hkept (us : List Worker) (hus : ∀ u ∈ us, u ∈ before ++ after) :
        us.filter (·.connection != w.connection) = us :=
      List.filter_eq_self.mpr fun u hu => bne_iff_ne.mpr (hne u (hus u hu))
    rw [hsplit, List.filter_append, List.filter_cons_of_neg (by simp), hkept _ fun u => List.mem_append_left _,
      hkept _ fun u => List.mem_append_right _]

namespace Site

/-- What others have observed of a worker's turn. -/
def observed (s : Site) (w : Worker) (allowance : Nat) : Ledger :=
  (w.step s.intake.now s.intake.stopping s.intake.queue allowance).events.foldl (fun l e => l.observe w e)
    s.intake.ledger

theorem observed_observed (s : Site) (w : Worker) (allowance : Nat) :
    s.intake.ledger.Observed w (w.step s.intake.now s.intake.stopping s.intake.queue allowance).events
      (s.observed w allowance) :=
  Ledger.observed_foldl ..

/-- A worker has taken a step and is left, or has ended and the listener has taken note of it. -/
inductive Worked (s : Site) (w : Worker) (turn : Worker.Turn) (ledger : Ledger) (t : Site) : Prop where
  | left (v : Worker) (next : turn.next.worker? = some v)
      (workers : t.intake.workers = (s.intake.replace v).workers) (queue : t.intake.queue = turn.queue)
      (ledger : t.intake.ledger = ledger)
      (listener : t.listener = { s.listener with
        cancelled := s.listener.cancelled || turn.events.contains .signalled })
  | ended (k : Closing) (next : turn.next = .ended k)
      (workers : t.intake.workers = s.intake.workers.filter (·.connection != w.connection))
      (queue : t.intake.queue = turn.queue.dropProducer)
      (ledger : t.intake.ledger = { ledger.close k with
        metrics := (ledger.close k).metrics.shift .activeConnections (· - 1) })
      (listener : t.listener = { s.listener with
        cancelled := s.listener.cancelled || turn.events.contains .signalled
        stats.active := s.listener.stats.active - 1, slots := s.listener.slots + 1 })

theorem worked_stepWorker (s : Site) (w : Worker) (allowance : Nat) :
    Worked s w (w.step s.intake.now s.intake.stopping s.intake.queue allowance) (s.observed w allowance)
      (s.stepWorker w allowance) := by
  unfold stepWorker Intake.stepWorker observed
  generalize w.step s.intake.now s.intake.stopping s.intake.queue allowance = turn
  simp only
  cases hnext : turn.next with
  | ended k =>
      cases hsignal : turn.events.contains .signalled with
      | true => exact .ended k hnext rfl rfl rfl (by rw [hsignal, Bool.or_true]; rfl)
      | false => exact .ended k hnext rfl rfl rfl (by rw [hsignal, Bool.or_false]; rfl)
  | _ v =>
      cases hsignal : turn.events.contains .signalled with
      | true => exact .left v (by rw [hnext]; rfl) rfl rfl rfl (by rw [hsignal, Bool.or_true]; rfl)
      | false => exact .left v (by rw [hnext]; rfl) rfl rfl rfl (by rw [hsignal, Bool.or_false]; rfl)

theorem clock_stepWorker (s : Site) (w : Worker) (allowance : Nat) :
    (s.stepWorker w allowance).intake.now = s.intake.now ∧
      (s.stepWorker w allowance).intake.stopping = (s.intake.stopping
        || (w.step s.intake.now s.intake.stopping s.intake.queue allowance).events.contains .signalled) := by
  unfold stepWorker Intake.stepWorker
  generalize w.step s.intake.now s.intake.stopping s.intake.queue allowance = turn
  simp only
  cases turn.next with
  | _ _ =>
      cases hsignal : turn.events.contains .signalled with
      | true => exact ⟨rfl, (Bool.or_true _).symm⟩
      | false => exact ⟨rfl, (Bool.or_false _).symm⟩

/-- What is not so at first and is so in the end of a run becomes so at some point of it. -/
theorem exists_first {α : Type} (f : Site → α → Site) (p : Site → Prop) [DecidablePred p] (s : Site) (run : List α)
    (hnot : ¬ p s) (hp : p (run.foldl f s)) :
    ∃ before a after, run = before ++ a :: after ∧ ¬ p (before.foldl f s) ∧ p (f (before.foldl f s) a) := by
  induction run generalizing s with
  | nil => exact absurd hp hnot
  | cons a run ih =>
      by_cases hnow : p (f s a)
      · exact ⟨[], a, run, rfl, hnot, hnow⟩
      · obtain ⟨before, b, after, rfl, hbefore⟩ := ih _ hnow hp
        exact ⟨a :: before, b, after, rfl, hbefore⟩

end Site

end LogIntake
