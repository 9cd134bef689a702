import LogIntake.Proofs.Connection.Heading
import LogIntake.Proofs.Connection.Vigil

/-!
# The time that a worker has for a frame

From the moment at which a worker begins to wait for a frame there is a deadline. What comes before it is taken when it
comes, and otherwise the connection is closed at the deadline, however much has been received meanwhile. The clock does
not run past either, and each pause of the connection that is over leaves one less to wait for.
-/

namespace LogIntake

namespace Vigil

variable {a : Assignment} {v v' : Vigil} {since : Instant} {comes : Option Instant} {news p p' : Prospect}
  {allowance : Nat}

/-! ## The clock -/

/-- The clock runs on only while the worker waits, and not past its deadline or the end of a pause. -/
theorem Awaits.elapse (h : v.Awaits a since comes news p) {later : Instant}
    (hallows : v.allows (.elapse later) = true) : Awaits a since comes news { v with now := later } p := by
  have hopen : v.stint.closing.isSome = false := by rw [h.opened]; rfl
  simp only [allows, rests, hopen, Bool.false_or, Bool.and_eq_true, decide_eq_true_eq, Option.all_eq_true] at hallows
  obtain ⟨⟨hrests, -⟩, hnext⟩ := hallows
  have hwaits := h.waits
  obtain hwaiting | hpushing := Worker.phase_of_blocked h.plays hrests
  · obtain ⟨deadline, hphase⟩ := hwaiting
    have hbounds := Worker.le_of_nextTime hphase hnext
    rw [Waits, hphase] at hwaits
    obtain ⟨rfl, -, hpause⟩ := hwaits
    refine ⟨h.opened, h.plays, ?_, (hpause.comesAt?_eq later).trans h.comes, h.news⟩
    rw [Waits, hphase]
    exact ⟨rfl, hbounds.1, hpause.later hbounds.2⟩
  · obtain ⟨ticket, hphase⟩ := hpushing
    rw [Waits, hphase] at hwaits
    exact hwaits.elim

/-! ## Runs -/

theorem log_step (v : Vigil) (m : Move) : v.log <+: (v.step m).log := by
  have hsteps := v.steps m
  generalize v.step m = v' at *
  cases hsteps with
  | turn => exact List.prefix_append ..
  | elapse => exact List.prefix_refl _
  | beside _ now moves worker closing book received log => exact log ▸ List.prefix_refl _

theorem told_step (h : v.stint.stopping = true) (m : Move) : (v.step m).stint.stopping = true := by
  have hsteps := v.steps m
  generalize v.step m = v' at *
  cases hsteps with
  | turn => exact Bool.or_eq_true_iff.mpr (.inl h)
  | elapse => exact h
  | beside _ now moves worker closing book received log told => exact told h

theorem told_run (h : v.stint.stopping = true) (ms : List Move) : (v.run ms).stint.stopping = true := by
  induction ms generalizing v with
  | nil => exact h
  | cons m ms ih => exact ih (told_step h m)

/-- A wait that began with this log goes on, or it has ended. -/
def Stays (a : Assignment) (since : Instant) (comes : Option Instant) (news : Prospect)
    (log : List (Instant × Entry)) (v : Vigil) : Prop :=
  (v.log = log ∧ ∃ p, v.Awaits a since comes news p) ∨
    ∃ now e rest, v.log = log ++ (now, e) :: rest ∧ Ends a since comes news now e

variable {log : List (Instant × Entry)}

theorem Stays.of_log {e : Entry} {now : Instant} {rest : List (Instant × Entry)}
    (hlog : v.log = log ++ (now, e) :: rest) (hends : Ends a since comes news now e) (hgrows : v.log <+: v'.log) :
    v'.Stays a since comes news log := by
  obtain ⟨more, hmore⟩ := hgrows
  refine .inr ⟨now, e, rest ++ more, ?_, hends⟩
  rw [← hmore, hlog, List.append_assoc]
  rfl

theorem Stays.step (h : v.Stays a since comes news log) (hkept : v.Kept a) (hrunning : v.stint.stopping = false)
    (m : Move) : (v.step m).Stays a since comes news log := by
  obtain ⟨rfl, p, hawaits⟩ | ⟨now, e, rest, hlog, hends⟩ := h
  · have hsteps := v.steps m
    generalize v.step m = v' at *
    cases hsteps with
    | turn allowance =>
        obtain ⟨e, rest, hlog, hends⟩ | ⟨hlog, p', hawaits', -⟩ := hawaits.turn hkept hrunning allowance
        · exact .inr ⟨v.now, e, rest, hlog, hends⟩
        · exact .inl ⟨hlog, p', hawaits'⟩
    | elapse t hallows => exact .inl ⟨rfl, p, hawaits.elapse hallows⟩
    | beside _ now moves worker closing book received log =>
        exact .inl ⟨log, p, hawaits.of_worker (closing.trans hawaits.opened) now worker⟩
  · exact .of_log hlog hends (v.log_step m)

theorem Stays.run (h : v.Stays a since comes news log) (hkept : v.Kept a) (ms : List Move)
    (hrunning : (v.run ms).stint.stopping = false) : (v.run ms).Stays a since comes news log := by
  induction ms generalizing v with
  | nil => exact h
  | cons m ms ih =>
      have hbefore : v.stint.stopping = false :=
        Bool.eq_false_iff.mpr fun htold => by
          rw [told_run htold (m :: ms)] at hrunning
          cases hrunning
      exact ih (h.step hkept hbefore m) (hkept.step m) hrunning

theorem Begins.awaits (h : v.Begins) (hkept : v.Kept a) : ∃ p, v.Awaits a v.now
    ((a.prospect.beyond v.stint.book.frames.length).comesAt? v.now none)
    (a.prospect.beyond v.stint.book.frames.length).news p := by
  obtain ⟨hopen, hphase⟩ := h
  obtain ⟨p, hplays, -, hbetween⟩ := hkept.attends hopen
  have hidle : v.stint.worker.isWaiting = false := by
    obtain hphase | hphase := hphase
    · rw [Worker.isWaiting, hphase]
    · rw [Worker.isWaiting, hphase]
  obtain ⟨hdue, rfl⟩ := hbetween hidle
  refine ⟨_, hopen, hplays, ?_, by rw [hdue], rfl⟩
  unfold Waits
  obtain hphase | hphase := hphase
  · rw [hphase]
    exact ⟨rfl, hdue⟩
  · rw [hphase]
    exact ⟨rfl, hdue⟩

/-! ## The end of a wait -/

theorem allowance_ne_zero : Execution.allowance ≠ 0 := by
  decide

/-- With turns and time alone the worker comes to something. -/
def Resolves (v : Vigil) : Prop :=
  ∃ idle : List Move, (∀ m ∈ idle, m.isIdle = true) ∧ (v.run idle).log ≠ v.log

theorem Resolves.cons {m : Move} (hidle : m.isIdle = true) (hlog : (v.step m).log = v.log)
    (h : (v.step m).Resolves) : v.Resolves := by
  obtain ⟨idle, hall, hgrows⟩ := h
  exact ⟨m :: idle, List.forall_mem_cons.mpr ⟨hidle, hall⟩, hlog ▸ hgrows⟩

theorem step_turn (hopen : v.stint.closing = none) (allowance : Nat) : v.step (.turn allowance) = v.turn allowance := by
  have hallows : v.allows (.turn allowance) = true := rfl
  simp [step, happen, hallows, hopen]

theorem resolves_of_turn (hopen : v.stint.closing = none) {entry : Instant × Entry} {rest : List (Instant × Entry)}
    (hlog : (v.turn Execution.allowance).log = v.log ++ entry :: rest) : v.Resolves := by
  refine ⟨[.turn Execution.allowance], List.forall_mem_singleton.mpr rfl, ?_⟩
  have hrun : v.run [.turn Execution.allowance] = v.turn Execution.allowance := step_turn hopen _
  rw [hrun, hlog]
  exact fun hsame => List.cons_ne_nil _ _ (List.append_right_eq_self.mp hsame)

/-- A worker that has been told to shut down does so with its next turn. -/
theorem resolves_of_told (hopen : v.stint.closing = none) {deadline : Instant}
    (hlooks : v.stint.worker.deadline? v.now = some deadline) (htold : v.stint.stopping = true) : v.Resolves := by
  have hcloses : ∃ k, v.stint.worker.step v.now v.stint.stopping v.stint.queue Execution.allowance
      = ⟨v.stint.queue, .ended k, [], Execution.allowance⟩ := by
    unfold Worker.deadline? at hlooks
    unfold Worker.step Worker.begin
    cases hphase : v.stint.worker.phase with
    | ready => exact ⟨_, by simp only [htold, if_true]; rfl⟩
    | waiting deadline => exact ⟨_, by simp only [htold, if_true]; rfl⟩
    | _ =>
        rw [hphase] at hlooks
        cases hlooks
  obtain ⟨k, hstep⟩ := hcloses
  have hnone : v.stint.worker.frame? v.now v.stint.stopping v.stint.queue Execution.allowance = none := by
    rw [htold, Stint.frame?_of_told]
  have hturns := v.turns_turn Execution.allowance
  rw [hstep, hnone] at hturns
  exact resolves_of_turn hopen hturns.log

theorem blocked_of_still {w : Worker} {now deadline : Instant} (hphase : w.phase = .waiting deadline)
    (hstill : w.reader.Still now) (hearly : now.nanos < deadline.nanos) {allowance : Nat} (hspare : allowance ≠ 0)
    (q : Queue) : (w.step now false q allowance).next = .blocked w := by
  have hsame : { w with reader := w.reader, phase := .waiting deadline } = w := by rw [← hphase]
  unfold Worker.step
  rw [hphase]
  simp only [Worker.begin, if_neg hspare, Bool.false_eq_true, if_false, Worker.takeFrame, hstill.next _ _ hspare,
    Worker.await, if_neg (Nat.not_le.mpr hearly), hsame]

/-- At the deadline a wait does not go on, and a pause that is over is one less to wait for. -/
theorem Lingers.fewer {deadline : Instant} (h : v.Lingers deadline p allowance v' p')
    (hphase : v.stint.worker.phase = .waiting deadline) (hspare : allowance ≠ 0)
    (hpause : p.Rests v.now v.stint.worker.reader.source.due?)
    (hover : v.now = deadline ∨ v.stint.worker.reader.source.due? = some v.now) :
    v'.stint.worker.phase ≠ .starting ∧ p'.pauses < p.pauses := by
  have hpast (hearly : v.now.nanos < deadline.nanos) {due : Option Instant}
      (hheard : p.hear v.now v.stint.worker.reader.source.due? allowance = .blocked p' due ∨
        p.hear v.now v.stint.worker.reader.source.due? allowance = .spent p' due) : p'.pauses < p.pauses := by
    obtain hlate | hdue := hover
    · exact absurd hearly (hlate ▸ Nat.lt_irrefl _)
    · rw [hdue] at hpause hheard
      exact Prospect.pauses_of_over hpause (Nat.le_refl _) hspare hheard
  cases h with
  | starts before => exact absurd (hphase.symm.trans before) Worker.Phase.noConfusion
  | spends hspent => exact absurd hspent hspare
  | blocked _ due hheard hearly hafter =>
      exact ⟨by rw [hafter]; exact Worker.Phase.noConfusion, hpast hearly (.inl hheard)⟩
  | spent _ due hheard hearly hafter =>
      exact ⟨by rw [hafter]; exact Worker.Phase.noConfusion, hpast hearly (.inr hheard)⟩

/-- A wait ends if it does wherever a turn leaves it. -/
theorem Awaits.resolves_of_lingers (h : v.Awaits a since comes news p) (hkept : v.Kept a)
    (hrunning : v.stint.stopping = false)
    (hgoes : ∀ p', (v.turn Execution.allowance).Awaits a since comes news p' →
      v.Lingers (since.plus a.options.readTimeout) p Execution.allowance (v.turn Execution.allowance) p' →
      (v.turn Execution.allowance).Resolves) : v.Resolves := by
  have hstep := step_turn h.opened Execution.allowance
  obtain ⟨e, rest, hlog, -⟩ | ⟨hlog, p', hawaits, hlingers⟩ := h.turn hkept hrunning Execution.allowance
  · exact resolves_of_turn h.opened hlog
  · refine Resolves.cons (m := .turn Execution.allowance) rfl ?_ ?_
    · rw [hstep]
      exact hlog
    · rw [hstep]
      exact hgoes p' hawaits hlingers

/-- Waits of the same kind end in which fewer pauses are to come. -/
def EndsBelow (a : Assignment) (since : Instant) (comes : Option Instant) (news : Prospect) (n : Nat) : Prop :=
  ∀ (v : Vigil) (p : Prospect), v.Awaits a since comes news p → v.Kept a → v.stint.worker.phase ≠ .starting →
    p.pauses < n → v.Resolves

/-- The clock runs on to the end of a pause or to the deadline, and there is less to wait for. -/
theorem Awaits.resolves_at (h : v.Awaits a since comes news p) (hkept : v.Kept a)
    (hrunning : v.stint.stopping = false)
    (hphase : v.stint.worker.phase = .waiting (since.plus a.options.readTimeout)) {t : Instant}
    (hallows : v.allows (.elapse t) = true)
    (hover : t = since.plus a.options.readTimeout ∨ v.stint.worker.reader.source.due? = some t)
    (hless : EndsBelow a since comes news p.pauses) : v.Resolves := by
  have hstep : v.step (.elapse t) = { v with now := t } := if_pos hallows
  have hlater := h.elapse hallows
  have hkept' := hkept.step (.elapse t)
  have hpause := hlater.waits
  rw [Waits, hphase] at hpause
  refine Resolves.cons (m := .elapse t) rfl (by rw [hstep]) ?_
  rw [hstep] at hkept' ⊢
  refine hlater.resolves_of_lingers hkept' hrunning fun p' hawaits hlingers => ?_
  obtain ⟨hstarted, hfewer⟩ := hlingers.fewer hphase allowance_ne_zero hpause.2.2 hover
  exact hless _ _ hawaits (hkept'.turn hlater.opened Execution.allowance) hstarted hfewer

/-- A worker that waits for the end of a pause, or for its deadline, goes on when the first of them comes. -/
theorem Awaits.resolves_of_still (h : v.Awaits a since comes news p) (hkept : v.Kept a)
    (hphase : v.stint.worker.phase = .waiting (since.plus a.options.readTimeout))
    (hstill : v.stint.worker.reader.Still v.now) (hearly : v.now.nanos < (since.plus a.options.readTimeout).nanos)
    (hless : EndsBelow a since comes news p.pauses) : v.Resolves := by
  by_cases htold : v.stint.stopping = true
  · exact resolves_of_told h.opened (by rw [Worker.deadline?, hphase]) htold
  · have hrunning := Bool.eq_false_iff.mpr htold
    have hrests : v.rests = true := by
      rw [rests, hrunning, blocked_of_still hphase hstill hearly allowance_ne_zero]
      simp
    have hallows {t : Instant} (hnow : v.now.nanos ≤ t.nanos) (hnext : v.stint.worker.nextTime = some t) :
        v.allows (.elapse t) = true := by
      simp [allows, hrests, hnow, hnext]
    have hpaused := hstill.due
    cases hdue : v.stint.worker.reader.source.due? with
    | none =>
        have hnext : v.stint.worker.nextTime = some (since.plus a.options.readTimeout) := by
          rw [Worker.nextTime, hphase, ← hpaused, hdue]
        exact h.resolves_at hkept hrunning hphase (hallows (Nat.le_of_lt hearly) hnext) (.inl rfl) hless
    | some stop =>
        have hnext : v.stint.worker.nextTime = some (if stop.nanos ≤ (since.plus a.options.readTimeout).nanos then stop
            else since.plus a.options.readTimeout) := by
          rw [Worker.nextTime, hphase, ← hpaused, hdue]
        split at hnext
        · have hnow := h.waits.paused stop hdue
          exact h.resolves_at hkept hrunning hphase (hallows hnow hnext) (.inr hdue) hless
        · exact h.resolves_at hkept hrunning hphase (hallows (Nat.le_of_lt hearly) hnext) (.inl rfl) hless

theorem Awaits.looks (h : v.Awaits a since comes news p) (hstarted : v.stint.worker.phase ≠ .starting) :
    ∃ deadline, v.stint.worker.deadline? v.now = some deadline := by
  obtain hphase | hphase | ⟨deadline, hphase⟩ := h.waits.phase
  · exact absurd hphase hstarted
  · exact ⟨_, by rw [Worker.deadline?, hphase]⟩
  · exact ⟨deadline, by rw [Worker.deadline?, hphase]⟩

/-- Each pause that is over leaves one less, and at the deadline the wait ends. -/
theorem Awaits.resolves_of_started (h : v.Awaits a since comes news p) (hkept : v.Kept a)
    (hstarted : v.stint.worker.phase ≠ .starting) : v.Resolves := by
  induction hpauses : p.pauses using Nat.strong_induction_on generalizing v p with
  | _ n ih =>
      have hless : EndsBelow a since comes news p.pauses := fun v' p' h' hkept' hstarted' hfewer =>
        ih p'.pauses (hpauses ▸ hfewer) h' hkept' hstarted' rfl
      by_cases htold : v.stint.stopping = true
      · obtain ⟨deadline, hlooks⟩ := h.looks hstarted
        exact resolves_of_told h.opened hlooks htold
      · refine h.resolves_of_lingers hkept (Bool.eq_false_iff.mpr htold) fun p' hawaits hlingers => ?_
        have hkept' := hkept.turn h.opened Execution.allowance
        cases hlingers with
        | starts before => exact absurd before hstarted
        | spends hspent => exact absurd hspent allowance_ne_zero
        | blocked rest due hheard hearly hafter hstill =>
            have hagrees := p.agrees_hear v.now v.stint.worker.reader.source.due? h.waits.paused Execution.allowance
            rw [hheard] at hagrees
            exact hawaits.resolves_of_still hkept' hafter hstill hearly fun v'' p'' h'' hkept'' hstarted'' hfewer =>
              hless v'' p'' h'' hkept'' hstarted'' (Nat.lt_of_lt_of_le hfewer hagrees.2.2)
        | spent rest due hheard hearly hafter =>
            have hpasses := p.passes_hear v.now v.stint.worker.reader.source.due? allowance_ne_zero
            rw [hheard] at hpasses
            exact hless _ _ hawaits hkept' (by rw [hafter]; exact Worker.Phase.noConfusion) hpasses

theorem Awaits.resolves (h : v.Awaits a since comes news p) (hkept : v.Kept a) : v.Resolves := by
  by_cases hstarting : v.stint.worker.phase = .starting
  · have hstep : v.stint.worker.step v.now v.stint.stopping v.stint.queue Execution.allowance
        = ⟨v.stint.queue, .goesOn { v.stint.worker with phase := .ready }, [.started], Execution.allowance⟩ := by
      rw [Worker.step, hstarting]
    have hnone : v.stint.worker.frame? v.now v.stint.stopping v.stint.queue Execution.allowance = none := by
      rw [Worker.frame?, Worker.look?, hstarting]
      rfl
    have hturns := v.turns_turn Execution.allowance
    rw [hstep, hnone, ← step_turn h.opened] at hturns
    have hworker : (v.step (.turn Execution.allowance)).stint.worker = { v.stint.worker with phase := .ready } :=
      hturns.worker
    have hready := h.ready hturns.closing hturns.now hstarting hworker
    refine Resolves.cons (m := .turn Execution.allowance) rfl (hturns.log_eq rfl) ?_
    exact hready.resolves_of_started (hkept.step _) (by rw [hworker]; exact Worker.Phase.noConfusion)
  · exact h.resolves_of_started hkept hstarting

/-- When no frame has come in time, nothing is lost: all frames of what has been received have been taken, every record
among them is in the queue or has been, and every malformed unit has been reported. -/
theorem Kept.complete (h : v.Kept a) {k : Closing} (hk : v.stint.closing = some k)
    (htimeout : k.summary.reason = .timeout) :
    (a.options.framing.meaning a.options.maxRecordSize v.received).frames = v.stint.book.frames ∧
      v.stint.book.entered = a.records (payloads v.stint.book.frames) ∧
      v.stint.book.reported = units v.stint.book.frames := by
  obtain ⟨stopping, ps, failure, -, hclosed⟩ := h.sound.ended k hk
  have hcause := hclosed.cause
  rw [htimeout] at hcause
  have hfailure : failure = none := by
    cases failure with
    | none => rfl
    | some f => cases hcause
  have htaken := hclosed.taken
  rw [hfailure] at htaken
  refine ⟨h.timeout k hk htimeout, ?_, hclosed.reported⟩
  rw [hclosed.entered, htaken]
  exact congrArg a.records (List.append_nil ps).symm

/-- A turn after which the worker waits began the wait, or went on with it. -/
theorem waits_of_turn (hkept : v.Kept a) (hopen : v.stint.closing = none) {deadline : Instant}
    (hgoing : (v.turn allowance).stint.closing = none)
    (hphase : (v.turn allowance).stint.worker.phase = .waiting deadline) :
    (v.turn allowance).log = v.log ∧ (v.stint.worker.phase = .waiting deadline ∨
      (v.Begins ∧ deadline = v.now.plus a.options.readTimeout)) := by
  obtain ⟨p, hplays, -⟩ := hkept.attends hopen
  obtain ⟨ps, hand, hserving, -, -⟩ := hkept.sound.going hopen
  have hturns := v.turns_turn allowance
  obtain ⟨w, hw⟩ := Worker.worker_of_going (hturns.closing.symm.trans hgoing)
  have hworker := hturns.worker
  rw [hw, Option.getD_some] at hworker
  rw [hworker] at hphase
  obtain ⟨hnone, hlooks⟩ := Worker.looks_of_waiting hplays hw hphase
  rw [hnone] at hturns
  refine ⟨hturns.log_eq (hturns.closing.symm.trans hgoing), ?_⟩
  unfold Worker.deadline? at hlooks
  cases hbefore : v.stint.worker.phase with
  | ready =>
      rw [hbefore] at hlooks
      refine .inr ⟨⟨hopen, .inr hbefore⟩, ?_⟩
      rw [← Option.some.inj hlooks, hserving.options]
  | waiting deadline' =>
      rw [hbefore] at hlooks
      exact .inl (congrArg _ (Option.some.inj hlooks))
  | _ =>
      rw [hbefore] at hlooks
      cases hlooks

/-- A deadline is that of the wait that goes on: it is counted from the moment at which the worker began to wait, and
nothing has been taken since then. -/
theorem deadline_of_begins (a : Assignment) (o : QueueOptions) (now : Instant) (moves : List Move) :
    let v := (start a o now).run moves
    ∀ deadline, v.stint.closing = none → v.stint.worker.phase = .waiting deadline →
      ∃ before after, moves = before ++ after ∧
        let u := (start a o now).run before
        u.Begins ∧ u.log = v.log ∧ deadline = u.now.plus a.options.readTimeout := by
  induction moves using List.reverseRecOn with
  | nil => exact fun deadline _ hphase => nomatch hphase
  | append_singleton moves m ih =>
      intro v deadline hgoing hphase
      have hkept := (kept_start a o now).run moves
      have hsteps := ((start a o now).run moves).steps m
      have hv : v = ((start a o now).run moves).step m := run_append ..
      rw [← hv] at hsteps
      generalize hu : (start a o now).run moves = u at *
      -- A worker that waited before, and has taken nothing since, waits for the same frame.
      have hsame (hlog : v.log = u.log) (hopen : u.stint.closing = none)
          (hwaiting : u.stint.worker.phase = .waiting deadline) : ∃ before after, moves ++ [m] = before ++ after ∧
            let u' := (start a o now).run before
            u'.Begins ∧ u'.log = v.log ∧ deadline = u'.now.plus a.options.readTimeout := by
        obtain ⟨before, after, rfl, hbegins, hold, hdeadline⟩ := ih deadline hopen hwaiting
        exact ⟨before, after ++ [m], List.append_assoc .., hbegins, hold.trans hlog.symm, hdeadline⟩
      generalize v = v' at *
      cases hsteps with
      | turn allowance hopen =>
          obtain ⟨hlog, hwaiting | ⟨hbegins, hdeadline⟩⟩ := waits_of_turn hkept hopen hgoing hphase
          · exact hsame hlog hopen hwaiting
          · refine ⟨moves, [m], rfl, ?_⟩
            rw [hu]
            exact ⟨hbegins, hlog.symm, hdeadline⟩
      | elapse t => exact hsame rfl hgoing hphase
      | beside _ now' moves' worker closing book received log =>
          exact hsame log (closing.symm.trans hgoing) (worker ▸ hphase)

/-- Whenever a worker begins to wait for a frame and is not told to shut down, the wait ends with what comes first, and
then, or else at the deadline; until then it goes on, and with turns and time alone it comes to an end. The deadline is
always that of the wait that goes on, however much is received meanwhile; each frame that is taken is dealt with, and
when none comes in time nothing is lost. -/
theorem deadline_kept (a : Assignment) (o : QueueOptions) (now : Instant) (moves : List Move) :
    let v := (start a o now).run moves
    v.stint.Accounted a ∧ v.received <+: a.content ∧
      (∀ deadline, v.stint.closing = none → v.stint.worker.phase = .waiting deadline →
        ∃ before after, moves = before ++ after ∧
          let u := (start a o now).run before
          u.Begins ∧ u.log = v.log ∧ deadline = u.now.plus a.options.readTimeout) ∧
      (v.Begins →
        let p := a.prospect.beyond v.stint.book.frames.length
        let comes := p.comesAt? v.now none
        ∀ more, let v' := v.run more
          v'.stint.stopping = false →
            (v'.log = v.log ∧ v'.stint.closing = none ∧ v'.now.nanos ≤ (v.now.plus a.options.readTimeout).nanos ∧
              (∀ t, comes = some t → v'.now.nanos ≤ t.nanos) ∧ v'.Resolves) ∨
            ∃ at_ e rest, v'.log = v.log ++ (at_, e) :: rest ∧ Ends a v.now comes p.news at_ e) ∧
      ∀ k, v.stint.closing = some k → k.summary.reason = .timeout →
        (a.options.framing.meaning a.options.maxRecordSize v.received).frames = v.stint.book.frames ∧
          v.stint.book.entered = a.records (payloads v.stint.book.frames) ∧
          v.stint.book.reported = units v.stint.book.frames := by
  intro v
  have hkept : v.Kept a := (kept_start a o now).run moves
  refine ⟨hkept.sound.accounted, hkept.isPrefix, deadline_of_begins a o now moves, fun hbegins => ?_,
    fun k hk htimeout => hkept.complete hk htimeout⟩
  intro p comes more v' hrunning
  obtain ⟨p₀, hawaits⟩ := hbegins.awaits hkept
  have hstays : v.Stays a v.now comes p.news v.log := .inl ⟨rfl, p₀, hawaits⟩
  obtain ⟨hlog, p', hawaits'⟩ | hended := hstays.run hkept more hrunning
  · exact .inl ⟨hlog, hawaits'.opened, hawaits'.waits.early, hawaits'.le, hawaits'.resolves (hkept.run more)⟩
  · exact .inr hended

/-- What comes exactly at the deadline may still be taken: here nothing comes before it, and the worker goes on. -/
theorem frame_at_deadline :
    let a : Assignment :=
      { connection := 1, peer := .v4 ⟨192, 0, 2, 10⟩ 40000, options := { readTimeout := .ofMillis 100 }
        steps := [.pause (.ofMillis 100), .data [60, 114, 101, 99, 62, 65, 60, 47, 114, 101, 99, 62]] }
    let v := start a {} ⟨0⟩
    let deadline := v.now.plus a.options.readTimeout
    let v' := v.run [.turn 128, .turn 128, .elapse deadline, .turn 128]
    a.prospect.comesAt? v.now none = some deadline ∧ v'.now = deadline ∧ v'.stint.stopping = false ∧
      v'.log = [(deadline, .took (.record [65]))] ∧ v'.stint.closing = none := by
  decide +kernel

end Vigil

end LogIntake
