import LogIntake.Proofs.Site.Accounts
import LogIntake.Proofs.Site.Grace
import LogIntake.Proofs.Site.Isolation

/-!
# Until the listener is told to stop

While a listener accepts, it takes notice of the signal to shut down, or of what comes to its socket if the signal
has not been given. The first of these that ends the accepting (`Notice.ending?`) decides what the listener answers
when it has stopped (`ending_run`). Nothing that comes before that is lost, and nothing is taken on after the signal.
-/

namespace LogIntake

/-- A failure after which a listener goes on. -/
def Accepted.transient? : Accepted → Option IoError
  | .connection _ _ => none
  | .failed cause => if cause.endsListening then none else some cause

theorem IoError.endsListening_iff (cause : IoError) :
    cause.endsListening = true ↔ cause.kind ∈ [Kind.invalidInput, .notConnected, .unsupported] := by
  unfold endsListening
  cases cause.kind with
  | _ => decide

theorem IoError.not_endsListening_iff (cause : IoError) :
    cause.endsListening = false ↔ cause.kind ∉ [Kind.invalidInput, .notConnected, .unsupported] := by
  rw [← endsListening_iff, Bool.not_eq_true]

namespace Listener

/-- What a listener that accepts takes notice of. -/
inductive Notice where
  /-- The signal to shut down. -/
  | signal
  | came (accepted : Accepted)
  deriving DecidableEq, Repr

namespace Notice

def accepted? : Notice → Option Accepted
  | .signal => none
  | .came accepted => some accepted

/-- What ends the accepting: the signal, or a failure that makes the socket useless. -/
def ending? : Notice → Option (Option IoError)
  | .signal => some none
  | .came (.connection _ _) => none
  | .came (.failed cause) => if cause.endsListening then some (some cause) else none

theorem ending?_eq_some_none_iff {n : Notice} : n.ending? = some none ↔ n = .signal := by
  cases n with
  | signal => exact iff_of_true rfl rfl
  | came accepted =>
      cases accepted with
      | connection peer steps => simp [ending?]
      | failed cause => cases hgrave : cause.endsListening <;> simp [ending?, hgrave]

theorem ending?_eq_some_some_iff {n : Notice} {cause : IoError} :
    n.ending? = some (some cause) ↔ n = .came (.failed cause) ∧ cause.endsListening = true := by
  cases n with
  | signal => simp [ending?]
  | came accepted =>
      cases accepted with
      | connection peer steps => simp [ending?]
      | failed other =>
          cases hgrave : other.endsListening with
          | false =>
              simp only [ending?, hgrave, Bool.false_eq_true, if_false, reduceCtorEq, came.injEq, Accepted.failed.injEq,
                false_iff, not_and]
              rintro rfl
              simp [hgrave]
          | true =>
              simp only [ending?, hgrave, if_true, Option.some.injEq, came.injEq, Accepted.failed.injEq, iff_self_and]
              rintro rfl
              exact hgrave

end Notice

/-- What a step of a listener takes notice of: the signal before all that has come. -/
def notice? (l : Listener) (i : Intake) (allowance : Nat) : Option Notice :=
  match l.phase with
  | .accepting =>
    if allowance = 0 then none
    else if l.cancelled then some .signal
    else (l.receives i allowance).map .came
  | _ => none

/-- What has ended the accepting. -/
def ending? (l : Listener) : Option (Option IoError) :=
  match l.phase with
  | .stopping _ failure | .stopped failure _ => some failure
  | _ => none

variable {l : Listener} {i : Intake} {allowance : Nat}

theorem ending?_eq_none_iff (l : Listener) : l.ending? = none ↔ l.isLeaving = false := by
  cases hphase : l.phase with
  | _ => simp [ending?, isLeaving, hphase]

theorem receives_of_phase (hphase : l.phase ≠ .accepting) : l.receives i allowance = none := by
  unfold receives
  split
  · next haccepting _ => exact absurd haccepting hphase
  · rfl

theorem receives_of_idle (hidle : allowance = 0 ∨ l.cancelled = true) : l.receives i allowance = none := by
  unfold receives
  split
  · exact if_pos (hidle.imp_right Or.inl)
  · rfl

theorem accepted?_notice? (l : Listener) (i : Intake) (allowance : Nat) :
    (l.notice? i allowance).bind Notice.accepted? = l.receives i allowance := by
  unfold notice?
  cases hphase : l.phase with
  | accepting =>
      simp only
      split
      · next hspent => exact (receives_of_idle (Or.inl hspent)).symm
      · split
        · next hcancelled => exact (receives_of_idle (Or.inr hcancelled)).symm
        · cases l.receives i allowance with
          | none => rfl
          | some accepted => rfl
  | _ => exact (receives_of_phase (by simp [hphase])).symm

/-- What ends the accepting is what the step takes notice of. -/
theorem ending?_step (hgoing : l.ending? = none) (i : Intake) (allowance : Nat) :
    (l.step i allowance).1.ending? = (l.notice? i allowance).bind Notice.ending? := by
  unfold notice? Listener.step
  cases hphase : l.phase with
  | starting => rfl
  | backingOff until_ =>
      simp only
      split
      · exact hgoing
      · split
        · rfl
        · split
          · rfl
          · exact hgoing
  | accepting =>
      simp only
      split
      · exact hgoing
      · next hallowance =>
          split
          · rfl
          · next hcancelled =>
              have hcourse := course_accept l i allowance hphase hallowance hcancelled
              generalize l.receives i allowance = got at *
              generalize (l.accept i allowance).1 = l', (l.accept i allowance).2.1 = i' at *
              cases hcourse with
              | waits => exact hgoing
              | opens log phase => rfl
              | told log phase cancelled => exact absurd cancelled hcancelled
              | finishes deadline failure phase ended => cases hphase.symm.trans phase
              | rejects peer steps rest phase full => exact hgoing
              | serves peer steps rest phase free => exact hgoing
              | backsOff cause rest phase mild => simp [ending?, Notice.ending?, backOff, write, mild]
              | breaks cause rest log phase grave => simp [ending?, Notice.ending?, stop, grave]
  | stopping deadline failure => simp [ending?, hphase] at hgoing
  | stopped failure report => simp [ending?, hphase] at hgoing

theorem notice?_of_ending (h : l.ending? ≠ none) (i : Intake) (allowance : Nat) : l.notice? i allowance = none := by
  unfold notice?
  cases hphase : l.phase with
  | accepting => simp [ending?, hphase] at h
  | _ => rfl

theorem ending?_course {l' : Listener} {i' : Intake} {got : Option Accepted} (h : l.Course i got l' i')
    (hending : l.ending? ≠ none) : l'.ending? = l.ending? := by
  have hgoing (hphase : l.phase = .accepting) : False := hending (by simp [ending?, hphase])
  cases h with
  | waits => rfl
  | opens log phase =>
      rcases phase with phase | ⟨until_, phase⟩
      · simp [ending?, phase] at hending
      · simp [ending?, phase] at hending
  | told log phase cancelled => exact (hgoing phase).elim
  | finishes deadline failure phase ended => simp [ending?, phase_finish, phase]
  | rejects peer steps rest phase full => exact (hgoing phase).elim
  | serves peer steps rest phase free => exact (hgoing phase).elim
  | backsOff cause rest phase mild => exact (hgoing phase).elim
  | breaks cause rest log phase grave => exact (hgoing phase).elim

/-- A step takes what is offered first, or nothing, and the rest is there still unless the listener leaves. -/
theorem exists_rest_accept (l : Listener) (i : Intake) (allowance : Nat) (hphase : l.phase = .accepting)
    (hallowance : allowance ≠ 0) (hcancelled : ¬ l.cancelled = true) :
    ∃ took rest, l.offers = took ++ rest ∧ took.map (·.accepted) = (l.receives i allowance).toList ∧
      ((l.accept i allowance).1.isLeaving = false → (l.accept i allowance).1.offers = rest) := by
  rw [receives_of_accepting hphase hallowance hcancelled]
  unfold accept
  cases hoffers : l.offers with
  | nil => exact ⟨[], [], rfl, rfl, fun _ => hoffers⟩
  | cons offer rest =>
      obtain ⟨at_, accepted⟩ := offer
      simp only [List.head?_cons, Option.bind_some]
      by_cases hearly : i.now.nanos < at_.nanos
      · rw [if_pos hearly, if_pos hearly]
        exact ⟨[], _, rfl, rfl, fun _ => hoffers⟩
      · rw [if_neg hearly, if_neg hearly]
        refine ⟨[⟨at_, accepted⟩], rest, rfl, rfl, ?_⟩
        cases accepted with
        | connection peer steps =>
            simp only [dispatch]
            split
            · exact fun _ => rfl
            · exact fun _ => rfl
        | failed cause =>
            simp only
            split
            · intro hgoing
              cases hgoing
            · exact fun _ => rfl

theorem exists_rest_step (l : Listener) (i : Intake) (allowance : Nat) :
    ∃ took rest, l.offers = took ++ rest ∧ took.map (·.accepted) = (l.receives i allowance).toList ∧
      ((l.step i allowance).1.isLeaving = false → (l.step i allowance).1.offers = rest) := by
  have hnothing (hnone : l.receives i allowance = none)
      (hsame : (l.step i allowance).1.isLeaving = false → (l.step i allowance).1.offers = l.offers) :
      ∃ took rest, l.offers = took ++ rest ∧ took.map (·.accepted) = (l.receives i allowance).toList ∧
        ((l.step i allowance).1.isLeaving = false → (l.step i allowance).1.offers = rest) :=
    ⟨[], l.offers, rfl, by rw [hnone]; rfl, hsame⟩
  cases hphase : l.phase with
  | accepting =>
      by_cases hidle : allowance = 0 ∨ l.cancelled = true
      · refine hnothing (receives_of_idle hidle) fun hgoing => ?_
        by_cases hspent : allowance = 0
        · simp [Listener.step, hphase, hspent]
        · have hcancelled := hidle.resolve_left hspent
          simp [Listener.step, hphase, hspent, hcancelled, isLeaving, stop] at hgoing
      · rw [not_or] at hidle
        have hstep : l.step i allowance = l.accept i allowance := by simp [Listener.step, hphase, hidle]
        rw [hstep]
        exact l.exists_rest_accept i allowance hphase hidle.1 hidle.2
  | starting => exact hnothing (receives_of_phase (by simp [hphase])) fun _ => by simp [Listener.step, hphase, write]
  | backingOff until_ =>
      refine hnothing (receives_of_phase (by simp [hphase])) fun _ => ?_
      simp only [Listener.step, hphase]
      split
      · rfl
      · split
        · rfl
        · split
          · rfl
          · rfl
  | stopping deadline failure =>
      refine hnothing (receives_of_phase (by simp [hphase])) fun hgoing => ?_
      simp only [Listener.step, hphase] at hgoing ⊢
      split at hgoing
      · simp [isLeaving, phase_finish] at hgoing
      · simp [isLeaving, hphase] at hgoing
  | stopped failure report =>
      exact hnothing (receives_of_phase (by simp [hphase])) fun _ => by simp [Listener.step, hphase]

/-- A listener that has stopped answers with what has ended the accepting. -/
theorem ending?_of_result {result : Except IntakeError ListenerReport} (h : l.result? = some result) :
    (∃ report, result = .ok report ∧ l.ending? = some none) ∨
      ∃ cause, result = .error (.listener cause) ∧ l.ending? = some (some cause) := by
  cases hphase : l.phase with
  | stopped failure report =>
      cases failure with
      | none => exact Or.inl ⟨report, by simpa [result?, hphase] using h.symm, by simp [ending?, hphase]⟩
      | some cause => exact Or.inr ⟨cause, by simpa [result?, hphase] using h.symm, by simp [ending?, hphase]⟩
  | _ => simp [result?, hphase] at h

theorem isLeaving_of_result {result : Except IntakeError ListenerReport} (h : l.result? = some result) :
    l.isLeaving = true := by
  cases hphase : l.phase with
  | stopped failure report => simp [isLeaving, hphase]
  | _ => simp [result?, hphase] at h

theorem isSome_result? (l : Listener) : l.result?.isSome = l.hasStopped := by
  cases hphase : l.phase with
  | stopped failure report => cases failure <;> simp [result?, hasStopped, hphase]
  | _ => simp [result?, hasStopped, hphase]

theorem hasStopped_of_result (h : l.result? = none) : l.hasStopped = false := by
  rw [← isSome_result?, h]
  rfl

/-- A step in which a listener comes to leave tells the workers. -/
theorem told_of_course {l' : Listener} {i' : Intake} {got : Option Accepted} (h : l.Course i got l' i')
    (htold : l'.Told) : l.Told ∨ i'.stopping = true := by
  cases h with
  | waits => exact Or.inl htold
  | opens log phase => exact Or.inl (Or.inl (htold.cancelled rfl))
  | told log phase cancelled => exact Or.inr rfl
  | finishes deadline failure phase ended => exact Or.inl (Or.inr (by simp [isLeaving, phase]))
  | rejects peer steps rest phase full => exact Or.inl htold
  | serves peer steps rest phase free => exact Or.inl htold
  | backsOff cause rest phase mild => exact Or.inl (Or.inl (htold.cancelled rfl))
  | breaks cause rest log phase grave => exact Or.inr rfl

end Listener

namespace Site

variable {o : ListenerOptions} {qo : QueueOptions} {s : Site} {free : Instant}

/-! ## What is noticed in a run -/

def notice? (s : Site) : Move → Option Listener.Notice
  | .listener allowance => s.listener.notice? s.intake allowance
  | _ => none

/-- All that the listener takes notice of. -/
def noticed (s : Site) : List Move → List Listener.Notice
  | [] => []
  | m :: moves => (s.notice? m).toList ++ noticed (s.step m) moves

/-- When the listener takes what comes to its socket. -/
def times (s : Site) : List Move → List Instant
  | [] => []
  | m :: moves => (s.admission? m).toList.map (fun _ => s.intake.now) ++ times (s.step m) moves

theorem filterMap_toList {α β : Type} (f : α → Option β) (x : Option α) :
    x.toList.filterMap f = (x.bind f).toList := by
  cases x with
  | none => rfl
  | some a => cases hf : f a <;> simp [hf]

theorem accepted?_notice? (s : Site) (m : Move) :
    (s.notice? m).bind (·.accepted?) = (s.admission? m).map (·.accepted) := by
  cases m with
  | listener allowance =>
      rw [admission?, Option.map_map]
      exact (s.listener.accepted?_notice? s.intake allowance).trans Option.map_id'.symm
  | _ => rfl

theorem accepted?_noticed (s : Site) (moves : List Move) :
    (s.noticed moves).filterMap (·.accepted?) = (s.admissions moves).map (·.accepted) := by
  induction moves generalizing s with
  | nil => rfl
  | cons m moves ih =>
      rw [noticed, admissions, List.filterMap_append, List.map_append, ih, filterMap_toList, s.accepted?_notice? m,
        Option.toList_map]

theorem failures_admissions (s : Site) (moves : List Move) :
    (s.admissions moves).filterMap (·.failure?)
      = ((s.noticed moves).filterMap (·.accepted?)).filterMap (·.transient?) := by
  rw [s.accepted?_noticed, List.filterMap_map]
  refine List.filterMap_congr fun a _ => ?_
  obtain ⟨accepted, live, begun⟩ := a
  cases accepted with
  | _ => rfl

theorem ending?_step (hgoing : s.listener.ending? = none) (m : Move) :
    (s.step m).listener.ending? = (s.notice? m).bind (·.ending?) := by
  have hothers := s.listener_step m
  cases m with
  | listener allowance => exact Listener.ending?_step hgoing s.intake allowance
  | _ =>
      obtain ⟨hphase, -⟩ := hothers.resolve_left (by simp)
      rw [Listener.ending?_eq_none_iff] at hgoing
      exact (Listener.ending?_eq_none_iff _).mpr ((isLeaving_congr hphase).trans hgoing)

theorem ending?_kept (h : s.listener.ending? ≠ none) (m : Move) :
    (s.step m).listener.ending? = s.listener.ending? ∧ s.notice? m = none := by
  have hothers := s.listener_step m
  cases m with
  | listener allowance =>
      exact ⟨Listener.ending?_course (Listener.course_step s.listener s.intake allowance) h,
        Listener.notice?_of_ending h s.intake allowance⟩
  | _ =>
      obtain ⟨hphase, -⟩ := hothers.resolve_left (by simp)
      exact ⟨by simp only [Listener.ending?, hphase], rfl⟩

theorem ending?_kept_run (h : s.listener.ending? ≠ none) (moves : List Move) :
    (s.run moves).listener.ending? = s.listener.ending? ∧ s.noticed moves = [] := by
  induction moves generalizing s with
  | nil => exact ⟨rfl, rfl⟩
  | cons m moves ih =>
      obtain ⟨hsame, hnone⟩ := ending?_kept h m
      obtain ⟨hrun, hnoticed⟩ := ih (hsame ▸ h)
      exact ⟨hrun.trans hsame, by rw [noticed, hnone, hnoticed]; rfl⟩

/-- The first thing that ends the accepting is the last that is noticed, and what the listener ends with. -/
theorem ending?_run (hgoing : s.listener.ending? = none) (moves : List Move) :
    ((s.run moves).listener.ending? = none ∧ ∀ n ∈ s.noticed moves, n.ending? = none) ∨
      ∃ earlier last failure, s.noticed moves = earlier ++ [last] ∧ (∀ n ∈ earlier, n.ending? = none) ∧
        last.ending? = some failure ∧ (s.run moves).listener.ending? = some failure := by
  induction moves generalizing s with
  | nil => exact Or.inl ⟨hgoing, fun _ hn => (List.not_mem_nil hn).elim⟩
  | cons m moves ih =>
      have hstep := ending?_step hgoing m
      rw [noticed]
      cases hending : (s.step m).listener.ending? with
      | some failure =>
          obtain ⟨hrun, hnothing⟩ := ending?_kept_run (by rw [hending]; exact Option.some_ne_none _) moves
          obtain ⟨last, hlast, hfailure⟩ := Option.bind_eq_some_iff.mp (hstep.symm.trans hending)
          refine Or.inr ⟨[], last, failure, ?_, fun _ hn => (List.not_mem_nil hn).elim, hfailure, hrun.trans hending⟩
          rw [hlast, hnothing]
          rfl
      | none =>
          have hfirst : ∀ n ∈ (s.notice? m).toList, n.ending? = none := fun n hn =>
            Option.bind_eq_none_iff.mp (hstep.symm.trans hending) n (Option.mem_toList.mp hn)
          rcases ih hending with ⟨hrun, hnone⟩ | ⟨earlier, last, failure, hnoticed, hnone, hlast, hrun⟩
          · exact Or.inl ⟨hrun, fun n hn => (List.mem_append.mp hn).elim (hfirst n) (hnone n)⟩
          · refine Or.inr ⟨(s.notice? m).toList ++ earlier, last, failure, ?_, fun n hn =>
              (List.mem_append.mp hn).elim (hfirst n) (hnone n), hlast, hrun⟩
            rw [hnoticed, List.append_assoc]

/-- What has been taken are the first offers. The others are there still unless the listener leaves. -/
theorem exists_rest_step (s : Site) (m : Move) :
    ∃ took rest, s.listener.offers = took ++ rest ∧
      took.map (·.accepted) = ((s.notice? m).bind (·.accepted?)).toList ∧
      ((s.step m).listener.isLeaving = false → (s.step m).listener.offers = rest) := by
  have hothers := s.offers_step m
  cases m with
  | listener allowance =>
      obtain ⟨took, rest, hsplit, htook, hrest⟩ := s.listener.exists_rest_step s.intake allowance
      exact ⟨took, rest, hsplit, htook.trans (congrArg _ (s.listener.accepted?_notice? s.intake allowance).symm),
        hrest⟩
  | _ =>
      obtain ⟨-, hoffers, -⟩ := hothers.resolve_left (by simp)
      exact ⟨[], _, rfl, rfl, fun _ => hoffers⟩

theorem exists_rest_run (s : Site) (moves : List Move) :
    ∃ took rest, s.listener.offers = took ++ rest ∧
      (s.noticed moves).filterMap (·.accepted?) = took.map (·.accepted) ∧
      ((s.run moves).listener.isLeaving = false → (s.run moves).listener.offers = rest) := by
  induction moves generalizing s with
  | nil => exact ⟨[], _, rfl, rfl, fun _ => rfl⟩
  | cons m moves ih =>
      obtain ⟨took, rest, hsplit, htook, hrest⟩ := s.exists_rest_step m
      have hfirst : (s.notice? m).toList.filterMap (·.accepted?) = took.map (·.accepted) := by
        rw [htook]
        exact filterMap_toList _ _
      rw [noticed, List.filterMap_append, hfirst]
      by_cases hgoing : (s.step m).listener.ending? = none
      · obtain ⟨more, later, hmore, htaken, hlater⟩ := ih (s.step m)
        rw [hrest ((Listener.ending?_eq_none_iff _).mp hgoing)] at hmore
        refine ⟨took ++ more, later, ?_, ?_, hlater⟩
        · rw [hsplit, hmore, List.append_assoc]
        · rw [htaken, List.map_append]
      · obtain ⟨hrun, hnothing⟩ := ending?_kept_run hgoing moves
        refine ⟨took, rest, hsplit, ?_, fun hstays => ?_⟩
        · rw [hnothing]
          exact List.append_nil _
        · exact absurd (hrun.symm.trans ((Listener.ending?_eq_none_iff _).mpr hstays)) hgoing

/-! ## After the signal -/

theorem stopping_of_told_step (h : s.listener.Told → s.intake.stopping = true) (m : Move)
    (htold : (s.step m).listener.Told) : (s.step m).intake.stopping = true := by
  by_cases hbefore : s.listener.Told
  · exact stopping_step (h hbefore) m
  cases m with
  | listener allowance =>
      exact (Listener.told_of_course (Listener.course_step s.listener s.intake allowance) htold).resolve_left hbefore
  | worker connection allowance =>
      simp only [step] at htold ⊢
      cases hw : s.intake.worker? connection with
      | none =>
          rw [hw] at htold
          exact absurd htold hbefore
      | some w =>
          rw [hw, Option.elim_some] at htold
          rw [Option.elim_some, (s.clock_stepWorker w allowance).2]
          rw [Listener.Told, isLeaving_congr (s.phase_stepWorker w allowance),
            told_worked (s.worked_stepWorker w allowance), Bool.or_eq_true, or_assoc] at htold
          rcases htold with hcancelled | hsignalled | hleaving
          · exact absurd (Or.inl hcancelled) hbefore
          · rw [hsignalled, Bool.or_true]
          · exact absurd (Or.inr hleaving) hbefore
  | leave => exact absurd htold hbefore
  | stop => rfl
  | elapse t => exact absurd htold hbefore
  | _ =>
      simp only [step, listener_consume] at htold
      exact absurd htold hbefore

theorem stopping_of_told_run (h : s.listener.Told → s.intake.stopping = true) (moves : List Move)
    (htold : (s.run moves).listener.Told) : (s.run moves).intake.stopping = true := by
  induction moves generalizing s with
  | nil => exact h htold
  | cons m moves ih => exact ih (stopping_of_told_step h m) htold

theorem times_of_told (h : s.listener.Told) (moves : List Move) : s.times moves = [] := by
  induction moves generalizing s with
  | nil => rfl
  | cons m moves ih =>
      obtain ⟨htold, hnone⟩ := told_step h m
      rw [times, hnone, ih htold]
      rfl

theorem told_run (h : s.listener.Told) (moves : List Move) : (s.run moves).listener.Told := by
  induction moves generalizing s with
  | nil => exact h
  | cons m moves ih => exact ih (told_step h m).1

theorem connections_run_of_told (h : s.listener.Told) (moves : List Move) :
    (s.run moves).intake.workers.map (·.connection) ⊆ s.intake.workers.map (·.connection) := by
  induction moves generalizing s with
  | nil => exact List.Subset.refl _
  | cons m moves ih => exact List.Subset.trans (ih (told_step h m).1) (connections_happen_of_told h (.own m))

/-- A site whose workers have been told to shut down has wound up since some point of time. -/
theorem Orderly.exists_winding (h : s.Orderly o qo) (hbefore : s.intake.stopping = false) {hs : List Happening}
    (htimed : s.isTimed hs = true) (hstopping : (s.after hs).intake.stopping = true) :
    ∃ signal, (s.after hs).Winding o qo signal := by
  have hquiet : ¬ s.intake.stopping = true := by simp [hbefore]
  obtain ⟨first, m, rest, rfl, hnot, hnow⟩ := exists_first Site.happen (·.intake.stopping = true) s hs hquiet hstopping
  change ¬ (s.after first).intake.stopping = true at hnot
  change ((s.after first).happen m).intake.stopping = true at hnow
  rw [isTimed_append, Bool.and_eq_true, isTimed, Bool.and_eq_true] at htimed
  obtain ⟨hfirst, hallows, hrest⟩ := htimed
  obtain ⟨hwinding, -⟩ := winding_of_signal (h.after hfirst) hallows (by simpa using hnot) hnow
  rw [after_append]
  exact ⟨_, hwinding.after hrest⟩

theorem Orderly.exists_winding_run (h : s.Orderly o qo) (hquiet : s.listener.Told → s.intake.stopping = true)
    (hbefore : s.intake.stopping = false) {moves : List Move} (htimed : s.isTimed (moves.map .own) = true)
    (htold : (s.run moves).listener.Told) : ∃ signal, (s.run moves).Winding o qo signal := by
  have hstopping := stopping_of_told_run hquiet moves htold
  rw [← after_map_own] at hstopping ⊢
  exact h.exists_winding hbefore htimed hstopping

/-- A listener that has been told to stop leaves before time passes. -/
theorem Orderly.now_run_of_told (h : s.Orderly o qo) (hquiet : s.listener.Told → s.intake.stopping = true)
    (hbefore : s.intake.stopping = false) {before after : List Move}
    (htimed : s.isTimed ((before ++ after).map .own) = true) (htold : (s.run before).listener.Told)
    (hgoing : (s.run (before ++ after)).listener.isLeaving = false) :
    (s.run (before ++ after)).intake.now = (s.run before).intake.now := by
  rw [List.map_append, isTimed_append, after_map_own, Bool.and_eq_true] at htimed
  obtain ⟨signal, hwinding⟩ := h.exists_winding_run hquiet hbefore htimed.1 htold
  have hlater := hwinding.after htimed.2
  rw [run_append] at hgoing ⊢
  rw [after_map_own] at hlater
  have hstays : (s.run before).listener.isLeaving = false := by
    by_contra hleaves
    rw [← Listener.ending?_eq_none_iff] at hleaves hgoing
    exact hleaves ((ending?_kept_run hleaves after).1.symm.trans hgoing)
  exact (hlater.prompt hgoing).trans (hwinding.prompt hstays).symm

/-! ## Before the signal -/

/-- Time has not passed beyond the point at which what comes next is taken. -/
theorem Prompt.now_le (h : s.Prompt free) {due : Instant}
    (hdue : (Listener.timetable s.listener.options.acceptBackoff free s.listener.offers).head? = some due) :
    s.intake.now.nanos ≤ due.nanos := by
  have hwaits := h.listener.waits
  cases hoffers : s.listener.offers with
  | nil =>
      rw [hoffers] at hdue
      cases hdue
  | cons offer rest =>
      rw [hoffers] at hdue hwaits
      have hfirst : (if free.nanos ≤ offer.at_.nanos then offer.at_ else free) = due := Option.some.inj hdue
      have hlate : free.nanos ≤ due.nanos ∧ offer.at_.nanos ≤ due.nanos := by
        rw [← hfirst]
        split <;> omega
      cases hphase : s.listener.phase with
      | stopping deadline failure => simp [hphase] at hwaits
      | stopped failure report => simp [hphase] at hwaits
      | backingOff until_ =>
          simp only [hphase] at hwaits
          exact Nat.le_trans hwaits.2 hlate.1
      | _ =>
          simp only [hphase] at hwaits
          exact (hwaits.2 offer rfl).elim (Nat.le_trans · hlate.1) (Nat.le_trans · hlate.2)

/-- What is taken is taken in time, and as long as the signal has not been given, nothing is late. -/
theorem Prompt.exists_later (h : s.Prompt free) {moves : List Move} (htimed : s.isTimed (moves.map .own) = true) :
    ∃ later, Listener.timetable s.listener.options.acceptBackoff free s.listener.offers = s.times moves ++ later ∧
      ((s.run moves).listener.Told ∨
        ∀ due, later.head? = some due → (s.run moves).intake.now.nanos ≤ due.nanos) := by
  induction moves generalizing s free with
  | nil => exact ⟨_, rfl, Or.inr fun _ => h.now_le⟩
  | cons m moves ih =>
      simp only [List.map_cons, isTimed, Bool.and_eq_true] at htimed
      have htakes := h.step htimed.1
      rw [times]
      cases hadmission : s.admission? m with
      | none =>
          rw [hadmission] at htakes
          rcases htakes with htold | ⟨hprompt, hoffers⟩
          · rw [times_of_told htold]
            exact ⟨_, rfl, Or.inl (told_run htold moves)⟩
          · obtain ⟨later, hlater, hend⟩ := ih hprompt htimed.2
            rw [options_step, hoffers] at hlater
            exact ⟨later, hlater, hend⟩
      | some a =>
          rw [hadmission] at htakes
          obtain ⟨offer, rest, hoffers, haccepted, hnow, hnext⟩ := htakes
          rw [hoffers, Listener.timetable_cons _ haccepted hnow]
          rcases hnext with htold | ⟨hrest, hprompt⟩
          · rw [times_of_told htold]
            exact ⟨_, rfl, Or.inl (told_run htold moves)⟩
          · obtain ⟨later, hlater, hend⟩ := ih hprompt htimed.2
            rw [options_step, hrest] at hlater
            exact ⟨later, congrArg _ hlater, hend⟩

/-! ## A whole run -/

theorem eq_last_of_ending {earlier : List Listener.Notice} {last n : Listener.Notice}
    (hnone : ∀ m ∈ earlier, m.ending? = none) (hn : n ∈ earlier ++ [last]) (hending : n.ending? ≠ none) : n = last :=
  (List.mem_append.mp hn).elim (fun hearlier => absurd (hnone n hearlier) hending) List.mem_singleton.mp

/-- What the listener answers is decided by what it notices first: the signal, or a failure that makes the socket
useless. -/
theorem result_run (hgoing : s.listener.ending? = none) (moves : List Move)
    {result : Except IntakeError ListenerReport} (hresult : (s.run moves).listener.result? = some result) :
    (∀ cause, result = .error (.listener cause) ↔
        ∃ earlier later, s.noticed moves = earlier ++ .came (.failed cause) :: later ∧
          cause.endsListening = true ∧ .signal ∉ earlier) ∧
      ((∃ report, result = .ok report) ↔
        ∃ earlier later, s.noticed moves = earlier ++ .signal :: later ∧
          ∀ cause, .came (.failed cause) ∈ earlier → cause.endsListening = false) := by
  obtain ⟨failure, hend, hfailed, hok⟩ : ∃ failure, (s.run moves).listener.ending? = some failure ∧
      (∀ cause, result = .error (.listener cause) ↔ failure = some cause) ∧
      ((∃ report, result = .ok report) ↔ failure = none) := by
    rcases Listener.ending?_of_result hresult with ⟨report, rfl, hend⟩ | ⟨cause, rfl, hend⟩
    · exact ⟨none, hend, by simp, by simp⟩
    · exact ⟨some cause, hend, by simp, by simp⟩
  rcases ending?_run hgoing moves with ⟨hnot, -⟩ | ⟨earlier, last, other, hnoticed, hnone, hlast, hother⟩
  · cases hnot.symm.trans hend
  obtain rfl : failure = other := Option.some.inj (hend.symm.trans hother)
  rw [hnoticed]
  refine ⟨fun cause => (hfailed cause).trans ⟨?_, ?_⟩, hok.trans ⟨?_, ?_⟩⟩
  · rintro rfl
    obtain ⟨rfl, hgrave⟩ := Listener.Notice.ending?_eq_some_some_iff.mp hlast
    exact ⟨earlier, [], rfl, hgrave, fun hsignal => Option.some_ne_none _ (hnone _ hsignal)⟩
  · rintro ⟨before, after, hsplit, hgrave, -⟩
    have hending := Listener.Notice.ending?_eq_some_some_iff.mpr ⟨rfl, hgrave⟩
    have hmem : .came (.failed cause) ∈ earlier ++ [last] := hsplit ▸ List.mem_append_right _ List.mem_cons_self
    rw [← eq_last_of_ending hnone hmem (by simp [hending])] at hlast
    exact Option.some.inj (hlast.symm.trans hending)
  · rintro rfl
    obtain rfl := Listener.Notice.ending?_eq_some_none_iff.mp hlast
    refine ⟨earlier, [], rfl, fun cause hcause => Bool.eq_false_iff.mpr fun hgrave => ?_⟩
    have hending := Listener.Notice.ending?_eq_some_some_iff.mpr ⟨rfl, hgrave⟩
    exact Option.some_ne_none _ (hending.symm.trans (hnone _ hcause))
  · rintro ⟨before, after, hsplit, -⟩
    have hmem : .signal ∈ earlier ++ [last] := hsplit ▸ List.mem_append_right _ List.mem_cons_self
    rw [← eq_last_of_ending hnone hmem (Option.some_ne_none _)] at hlast
    exact (Option.some.inj hlast).symm

/-- The first thing that the listener notices of these two ends it: the signal to shut down, after which it answers
with its report, or a failure that makes the socket useless, with which it answers. When it answers, the workers have
been told to shut down. Each failure after which it goes on is told of and counted once. What it takes from the socket
is the first part of what is offered, and the rest stays there as long as it accepts. Once it has been told to stop it
takes nothing more, no worker begins, and the workers have been told too. In time it takes each offer as soon as that
has come and the pause after the last failure is over, and it begins to leave as soon as it is told to. Then only so
much can go on until it has stopped, and until then something can. -/
theorem accepts_until_told (o : ListenerOptions) (qo : QueueOptions) (localAddress : Option SocketAddress)
    (offers : List Offer) (moves : List Move) :
    let site := start o qo localAddress offers
    let s := site.run moves
    let noticed := site.noticed moves
    let taken := noticed.filterMap (·.accepted?)
    let transient := taken.filterMap (·.transient?)
    (∀ result, s.listener.result? = some result → s.intake.stopping = true ∧
      (∀ cause, result = .error (.listener cause) ↔
        ∃ earlier later, noticed = earlier ++ .came (.failed cause) :: later ∧
          cause.kind ∈ [IoError.Kind.invalidInput, .notConnected, .unsupported] ∧ .signal ∉ earlier) ∧
      ((∃ report, result = .ok report) ↔
        ∃ earlier later, noticed = earlier ++ .signal :: later ∧
          ∀ cause, .came (.failed cause) ∈ earlier →
            cause.kind ∉ [IoError.Kind.invalidInput, .notConnected, .unsupported])) ∧
      s.listener.acceptErrors = transient ∧
      s.listener.stats.acceptErrors = transient.length ∧
      s.intake.metrics.count .acceptErrors = transient.length ∧
      (∃ took rest, offers = took ++ rest ∧ taken = took.map (·.accepted) ∧
        (s.listener.isLeaving = false → s.listener.offers = rest)) ∧
      (s.listener.Told → s.intake.stopping = true) ∧
      (∀ before after, moves = before ++ after → (site.run before).listener.Told →
        (site.run before).admissions after = [] ∧
          s.listener.nextConnection = (site.run before).listener.nextConnection ∧
          s.intake.workers.map (·.connection) ⊆ (site.run before).intake.workers.map (·.connection)) ∧
      (site.isTimed (moves.map .own) = true →
        (∃ later, Listener.timetable o.acceptBackoff ⟨0⟩ offers = site.times moves ++ later ∧
          (s.listener.Told ∨ ∀ due, later.head? = some due → s.intake.now.nanos ≤ due.nanos)) ∧
        (∀ before after, moves = before ++ after → (site.run before).listener.Told → s.listener.isLeaving = false →
          s.intake.now = (site.run before).intake.now) ∧
        (s.listener.Told → ∃ limit, ∀ hs, s.isTimed hs = true → s.efforts hs ≤ limit ∧
          ((s.after hs).listener.result? = none →
            ∃ m, (s.after hs).allows m = true ∧ (s.after hs).advances m = true))) := by
  intro site s noticed taken transient
  have hadmits : s.listener.Admits o s.intake ([] ++ site.admissions moves) :=
    admits_run (Listener.admits_start o localAddress offers (.start qo)) moves
  rw [List.nil_append] at hadmits
  have haccounts : s.listener.Accounts s.intake :=
    accounts_run (Listener.accounts_start o qo localAddress offers)
      (Listener.admits_start o localAddress offers (.start qo)) moves
  have htransient : s.listener.acceptErrors = transient := hadmits.failures.trans (site.failures_admissions moves)
  have hcount : s.listener.stats.acceptErrors = transient.length := hadmits.errors.trans (congrArg _ htransient)
  have horderly : site.Orderly o qo := orderly_start o qo localAddress offers
  have hquiet : site.listener.Told → site.intake.stopping = true := by rintro (h | h) <;> cases h
  have hcounted : s.intake.metrics.count .acceptErrors = transient.length :=
    (haccounts.apart.count_join _).trans (haccounts.acceptErrors.trans hcount)
  refine ⟨fun result hresult => ?_, htransient, hcount, hcounted, site.exists_rest_run moves,
    stopping_of_told_run hquiet moves, fun before after hmoves htold => ?_, fun htimed =>
    ⟨?_, fun before after hmoves htold hgoing => ?_, fun htold => ?_⟩⟩
  · refine ⟨stopping_of_told_run hquiet moves (Or.inr (Listener.isLeaving_of_result hresult)), ?_⟩
    simpa only [IoError.endsListening_iff, ← IoError.not_endsListening_iff] using result_run rfl moves hresult
  · have hnothing := admissions_of_told htold after
    have hbefore : (site.run before).listener.Admits o (site.run before).intake ([] ++ site.admissions before) :=
      admits_run (Listener.admits_start o localAddress offers (.start qo)) before
    have hafter := admits_run hbefore after
    rw [hnothing, List.append_nil, ← run_append, ← hmoves] at hafter
    have hconnections := connections_run_of_told htold after
    rw [← run_append, ← hmoves] at hconnections
    refine ⟨hnothing, ?_, hconnections⟩
    rw [hbefore.nextConnection, hbefore.accepted, ← hafter.accepted]
    exact hafter.nextConnection
  · have hprompt : site.Prompt ⟨0⟩ := ⟨Listener.prompt_start o localAddress offers, rfl⟩
    exact hprompt.exists_later htimed
  · rw [hmoves] at htimed
    have hnow := horderly.now_run_of_told hquiet rfl htimed htold (by rw [← hmoves]; exact hgoing)
    rwa [← hmoves] at hnow
  · obtain ⟨signal, hwinding⟩ := horderly.exists_winding_run hquiet rfl htimed htold
    exact ⟨_, fun hs hlater => ⟨hwinding.efforts_le hlater, fun hresult =>
      (hwinding.after hlater).exists_advance (Listener.hasStopped_of_result hresult)⟩⟩

/-- The signal comes at the moment at which a connection comes and the pause after a failure is over. -/
example :
    let site := start {} {} none [⟨⟨0⟩, .failed (.simple .connectionAborted)⟩,
      ⟨.ofMillis 50, .connection (.v4 ⟨192, 0, 2, 10⟩ 40000) []⟩]
    let moves : List Move := [.listener 128, .listener 128, .elapse (.ofMillis 50), .stop, .listener 128,
      .listener 128, .listener 128]
    site.isTimed (moves.map .own) = true ∧
      site.noticed moves = [.came (.failed (.simple .connectionAborted)), .signal] ∧
      (site.run moves).listener.result?
        = some (.ok { localAddress := none, accepted := 0, rejected := 0, acceptErrors := 1, unfinished := 0 }) := by
  decide +kernel

end Site

end LogIntake
