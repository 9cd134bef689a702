import LogIntake.Proofs.Connection.Cancellation
import LogIntake.Proofs.Connection.Coming
import LogIntake.Proofs.Connection.Reception

/-!
# Workers that wait for frames

A vigil is a stint in time. Turns take no time: the clock runs on only when a turn would leave the worker waiting where
it is, and no further than to the next point of time at which it can go on by itself. Others may use the queue as they
like. A worker that waits for a frame has before it what is to come, as it has been since the wait began (`Awaits`), and
each turn ends the wait or leaves it so.
-/

namespace LogIntake

/-- What a worker comes to: it takes a frame, or it closes its connection. -/
inductive Vigil.Entry where
  | took (frame : Frame)
  | closed (k : Closing)
  deriving DecidableEq, Repr

structure Vigil where
  stint : Stint
  now : Instant
  /-- What the worker has received of its connection. -/
  received : Bytes := []
  log : List (Instant × Vigil.Entry) := []
  deriving DecidableEq, Repr

namespace Vigil

inductive Move where
  | turn (allowance : Nat)
  | other (op : Queue.Operation)
  | leave
  | signal
  | elapse (t : Instant)
  deriving DecidableEq, Repr

def start (a : Assignment) (o : QueueOptions) (now : Instant) : Vigil :=
  { stint := .start a o, now }

/-- A turn would leave the worker waiting where it is. -/
def rests (v : Vigil) : Bool :=
  let s := v.stint
  s.closing.isSome || (s.worker.step v.now s.stopping s.queue Execution.allowance).next = .blocked s.worker

/-- Whether something can happen. The clock waits for the worker. -/
def allows (v : Vigil) : Move → Bool
  | .elapse t => v.rests && v.now.nanos ≤ t.nanos &&
    (v.stint.closing.isSome || v.stint.worker.nextTime.all (t.nanos ≤ ·.nanos))
  | _ => true

def turn (v : Vigil) (allowance : Nat) : Vigil :=
  let s := v.stint
  let next := s.turn v.now allowance
  let entries := (s.worker.frame? v.now s.stopping s.queue allowance).toList.map .took ++
    next.closing.toList.map .closed
  { v with
    stint := next
    received := v.received ++ s.worker.readIn v.now s.stopping s.queue allowance
    log := v.log ++ entries.map (v.now, ·) }

def happen (v : Vigil) : Move → Vigil
  | .turn allowance => if v.stint.closing.isSome then v else v.turn allowance
  | .other op => { v with stint := v.stint.step (.other op) }
  | .leave => { v with stint := v.stint.step .leave }
  | .signal => { v with stint := v.stint.step .signal }
  | .elapse t => { v with now := t }

/-- What cannot happen does not. -/
def step (v : Vigil) (m : Move) : Vigil :=
  if v.allows m then v.happen m else v

def run (v : Vigil) (ms : List Move) : Vigil :=
  ms.foldl step v

/-- Moves in which nothing is done from outside. -/
def Move.isIdle : Move → Bool
  | .turn allowance => allowance = Execution.allowance
  | .elapse _ => true
  | _ => false

/-- The worker begins to wait for a frame. -/
def Begins (v : Vigil) : Prop :=
  v.stint.closing = none ∧ (v.stint.worker.phase = .starting ∨ v.stint.worker.phase = .ready)

/-- What a worker comes to when this is what comes first. -/
def Brings (peer : SocketAddress) (e : Entry) : Prospect → Prop
  | .frame f _ => e = .took f
  | .ended tail => ∃ k, e = .closed k ∧ k.summary.reason = .eof ∧ k.error = none ∧ k.summary.discarded = tail
  | .failed cause => ∃ k, e = .closed k ∧ k.summary.reason = .io ∧ k.error = some (.connection peer cause)
  | .desync => ∃ k reason, e = .closed k ∧ k.summary.reason = .framing ∧ k.error = some (.framing peer reason)
  | _ => False

/-- How a wait ends that has begun at a point of time: with what comes first, not later than at the deadline, or at the
deadline, when nothing has come before it. -/
inductive Ends (a : Assignment) (since : Instant) (comes : Option Instant) (news : Prospect) :
    Instant → Entry → Prop where
  | comes (now : Instant) (e : Entry) (due : comes = some now)
      (intime : now.nanos ≤ (since.plus a.options.readTimeout).nanos) (brings : Brings a.peer e news) :
      Ends a since comes news now e
  | lapses (k : Closing) (late : ∀ t, comes = some t → (since.plus a.options.readTimeout).nanos ≤ t.nanos)
      (reason : k.summary.reason = .timeout) (error : k.error = some (.readTimeout a.peer a.options.readTimeout)) :
      Ends a since comes news (since.plus a.options.readTimeout) (.closed k)

variable {a : Assignment} {v : Vigil} {since : Instant} {comes : Option Instant} {news p : Prospect}

theorem run_append (v : Vigil) (ms more : List Move) : v.run (ms ++ more) = (v.run ms).run more :=
  List.foldl_append

/-! ## Steps -/

/-- What a move comes to: a turn, time that passes, or something that does not concern the worker. -/
inductive Steps (v : Vigil) : Vigil → Prop where
  | turn (allowance : Nat) (opened : v.stint.closing = none) : Steps v (v.turn allowance)
  | elapse (t : Instant) (allows : v.allows (.elapse t) = true) : Steps v { v with now := t }
  | beside (v' : Vigil) (now : v'.now = v.now) (moves : ∃ moves, v'.stint = v.stint.run moves)
      (worker : v'.stint.worker = v.stint.worker) (closing : v'.stint.closing = v.stint.closing)
      (book : v'.stint.book = v.stint.book) (received : v'.received = v.received) (log : v'.log = v.log)
      (told : v.stint.stopping = true → v'.stint.stopping = true) : Steps v v'

theorem steps (v : Vigil) (m : Move) : v.Steps (v.step m) := by
  have hsame : v.Steps v := .beside v rfl ⟨[], rfl⟩ rfl rfl rfl rfl rfl id
  unfold step
  split
  · next hallows =>
      cases m with
      | turn allowance =>
          simp only [happen]
          split
          · exact hsame
          · next hopen => exact .turn allowance (Option.not_isSome_iff_eq_none.mp hopen)
      | other op =>
          have hother := v.stint.steps (.other op)
          have htold (h : v.stint.stopping = true) := Stint.told_step h (.other op)
          cases hother with
          | beside _ _ worker closing book => exact .beside _ rfl ⟨[.other op], rfl⟩ worker closing book rfl rfl htold
      | leave => exact .beside _ rfl ⟨[.leave], rfl⟩ rfl rfl rfl rfl rfl id
      | signal => exact .beside _ rfl ⟨[.signal], rfl⟩ rfl rfl rfl rfl rfl fun _ => rfl
      | elapse t => exact .elapse t hallows
  · exact hsame

/-! ## What is kept -/

/-- All that is known of the stint and of what has been received. -/
structure Kept (a : Assignment) (v : Vigil) : Prop where
  sound : v.stint.Sound a
  attends : v.stint.Attends a
  isPrefix : v.received <+: a.content
  going : v.stint.closing = none → v.stint.worker.Receives a v.received v.stint.book.frames
  timeout : ∀ k, v.stint.closing = some k → k.summary.reason = .timeout →
    (a.options.framing.meaning a.options.maxRecordSize v.received).frames = v.stint.book.frames

theorem Kept.turn (h : v.Kept a) (hopen : v.stint.closing = none) (allowance : Nat) : (v.turn allowance).Kept a := by
  obtain ⟨p, hplays, -⟩ := h.attends hopen
  have hreceives := (h.going hopen).step hplays v.now v.stint.stopping v.stint.queue allowance
  refine ⟨h.sound.turn hopen v.now allowance, h.attends.turn hopen v.now allowance, hreceives.isPrefix,
    fun hgoing => ?_, hreceives.timeout⟩
  obtain ⟨w, hw⟩ := Worker.worker_of_going hgoing
  have hworker : (v.turn allowance).stint.worker = w := by
    simp only [Vigil.turn, Stint.turn, hw, Option.getD_some]
  rw [hworker]
  exact hreceives.going w hw

theorem Kept.step (h : v.Kept a) (m : Move) : (v.step m).Kept a := by
  have hsteps := v.steps m
  generalize v.step m = v' at *
  cases hsteps with
  | turn allowance opened => exact h.turn opened allowance
  | elapse t => exact ⟨h.sound, h.attends, h.isPrefix, h.going, h.timeout⟩
  | beside _ now moves worker closing book received log told =>
      obtain ⟨moves, hmoves⟩ := moves
      refine ⟨hmoves ▸ h.sound.run moves, hmoves ▸ h.attends.run moves, received ▸ h.isPrefix, ?_, ?_⟩
      · rw [closing, worker, received, book]
        exact h.going
      · rw [closing, received, book]
        exact h.timeout

theorem Kept.run (h : v.Kept a) (ms : List Move) : (v.run ms).Kept a := by
  induction ms generalizing v with
  | nil => exact h
  | cons m ms ih => exact ih (h.step m)

theorem kept_start (a : Assignment) (o : QueueOptions) (now : Instant) : (start a o now).Kept a := by
  have hfollowing := Reader.following_start { steps := a.steps } (.start a.options.recvBufferSize) a.options.framing
    a.options.maxRecordSize
  exact ⟨Stint.sound_start a o, Stint.attends_start a o, List.nil_prefix, fun _ => ⟨hfollowing, rfl⟩,
    fun k hk => nomatch hk⟩

/-! ## Waits -/

/-- Where a worker stands that waits for a frame since a point of time. -/
def Waits (a : Assignment) (since : Instant) (p : Prospect) (v : Vigil) : Prop :=
  match v.stint.worker.phase with
  | .starting | .ready => v.now = since ∧ v.stint.worker.reader.source.due? = none
  | .waiting deadline => deadline = since.plus a.options.readTimeout ∧ v.now.nanos ≤ deadline.nanos ∧
      p.Rests v.now v.stint.worker.reader.source.due?
  | _ => False

/-- A wait that has begun at a point of time goes on, with so much to come; something comes, and what, as it has been
all the time. -/
structure Awaits (a : Assignment) (since : Instant) (comes : Option Instant) (news : Prospect) (v : Vigil)
    (p : Prospect) : Prop where
  opened : v.stint.closing = none
  plays : v.stint.worker.reader.Plays a.options.framing a.options.maxRecordSize p
  waits : v.Waits a since p
  comes : p.comesAt? v.now v.stint.worker.reader.source.due? = comes
  news : p.news = news

theorem Waits.early (h : v.Waits a since p) : v.now.nanos ≤ (since.plus a.options.readTimeout).nanos := by
  unfold Waits at h
  split at h
  · exact h.1 ▸ Nat.le_add_right _ _
  · exact h.1 ▸ Nat.le_add_right _ _
  · exact h.1 ▸ h.2.1
  · exact h.elim

/-- A pause that has begun is not over before. -/
theorem Waits.paused (h : v.Waits a since p) (stop : Instant) (hdue : v.stint.worker.reader.source.due? = some stop) :
    v.now.nanos ≤ stop.nanos := by
  unfold Waits at h
  split at h
  · exact nomatch h.2.symm.trans hdue
  · exact nomatch h.2.symm.trans hdue
  · exact h.2.2.le stop hdue
  · exact h.elim

/-- Nothing has come before now. -/
theorem Awaits.le (h : v.Awaits a since comes news p) (t : Instant) (ht : comes = some t) : v.now.nanos ≤ t.nanos :=
  Prospect.le_comesAt? p v.now _ h.waits.paused (h.comes.trans ht)

theorem Waits.deadline (h : v.Waits a since p) (hoptions : v.stint.worker.options = a.options) {deadline : Instant}
    (hlooks : v.stint.worker.deadline? v.now = some deadline) : deadline = since.plus a.options.readTimeout := by
  unfold Waits at h
  unfold Worker.deadline? at hlooks
  cases hphase : v.stint.worker.phase with
  | ready =>
      rw [hphase] at h hlooks
      rw [← Option.some.inj hlooks, hoptions, h.1]
  | waiting until_ =>
      rw [hphase] at h hlooks
      rw [← Option.some.inj hlooks, h.1]
  | _ =>
      rw [hphase] at hlooks
      cases hlooks

/-- How a wait goes on with a turn before the deadline, and what then is to come. -/
inductive Lingers (v : Vigil) (deadline : Instant) (p : Prospect) (allowance : Nat) (v' : Vigil) : Prospect → Prop where
  | starts (before : v.stint.worker.phase = .starting) (after : v'.stint.worker.phase = .ready) :
      Lingers v deadline p allowance v' p
  | spends (spent : allowance = 0) : Lingers v deadline p allowance v' p
  | blocked (rest : Prospect) (due : Option Instant)
      (heard : p.hear v.now v.stint.worker.reader.source.due? allowance = .blocked rest due)
      (early : v.now.nanos < deadline.nanos) (after : v'.stint.worker.phase = .waiting deadline)
      (still : v'.stint.worker.reader.Still v'.now) : Lingers v deadline p allowance v' rest
  | spent (rest : Prospect) (due : Option Instant)
      (heard : p.hear v.now v.stint.worker.reader.source.due? allowance = .spent rest due)
      (early : v.now.nanos < deadline.nanos) (after : v'.stint.worker.phase = .waiting deadline) :
      Lingers v deadline p allowance v' rest

/-- What a turn adds to the log. -/
def entries (taken : Option Frame) (t : Worker.Turn) : List Entry :=
  taken.toList.map .took ++ t.next.closing?.toList.map .closed

/-- A vigil after a turn in which the worker takes this frame. -/
structure Turns (v : Vigil) (taken : Option Frame) (t : Worker.Turn) (v' : Vigil) : Prop where
  now : v'.now = v.now
  worker : v'.stint.worker = t.next.worker?.getD v.stint.worker
  closing : v'.stint.closing = t.next.closing?
  log : v'.log = v.log ++ (entries taken t).map (v.now, ·)

theorem turns_turn (v : Vigil) (allowance : Nat) :
    v.Turns (v.stint.worker.frame? v.now v.stint.stopping v.stint.queue allowance)
      (v.stint.worker.step v.now v.stint.stopping v.stint.queue allowance) (v.turn allowance) :=
  ⟨rfl, rfl, rfl, rfl⟩

variable {v' : Vigil} {t : Worker.Turn} {taken : Option Frame} {allowance : Nat}

/-- The wait has ended with a turn. -/
def Ended (a : Assignment) (since : Instant) (comes : Option Instant) (news : Prospect) (v v' : Vigil) : Prop :=
  ∃ e rest, v'.log = v.log ++ (v.now, e) :: rest ∧ Ends a since comes news v.now e

theorem Turns.ended {e : Entry} {rest : List Entry} (h : v.Turns taken t v') (hentries : entries taken t = e :: rest)
    (hends : Ends a since comes news v.now e) : v.Ended a since comes news v' := by
  refine ⟨e, rest.map (v.now, ·), ?_, hends⟩
  rw [h.log, hentries]
  rfl

theorem Turns.log_eq (h : v.Turns none t v') (hgoing : t.next.closing? = none) : v'.log = v.log := by
  rw [h.log, entries, hgoing]
  exact List.append_nil _

/-- Nothing has come of the prospect in this turn: either the deadline has come, or the wait goes on. -/
theorem Awaits.await (h : v.Awaits a since comes news p) (hpeer : v.stint.worker.peer = a.peer)
    (hoptions : v.stint.worker.options = a.options) {reader : Reader} {rest : Prospect} {q : Queue}
    {events : List Worker.Event} {left : Nat} {next : Worker → Worker.Next} (hnext : ∀ w, (next w).worker? = some w)
    (hgoing : ∀ w, (next w).closing? = none)
    (hturns : v.Turns none ({ v.stint.worker with reader }.await v.now (since.plus a.options.readTimeout) q events left
      next) v') (hplays : reader.Plays a.options.framing a.options.maxRecordSize rest)
    (hrests : rest.Rests v.now reader.source.due?)
    (hcomes : rest.comesAt? v.now reader.source.due? = p.comesAt? v.now v.stint.worker.reader.source.due?)
    (hnews : rest.news = p.news) :
    v.Ended a since comes news v' ∨
      (v.now.nanos < (since.plus a.options.readTimeout).nanos ∧ v'.log = v.log ∧ v'.stint.worker.reader = reader ∧
        v'.stint.worker.phase = .waiting (since.plus a.options.readTimeout) ∧
        v'.Awaits a since comes news rest) := by
  unfold Worker.await at hturns
  split at hturns
  · next hover =>
      have hsame : v.now = since.plus a.options.readTimeout :=
        congrArg Duration.mk (Nat.le_antisymm h.waits.early hover)
      refine .inl (hturns.ended rfl ?_)
      rw [hsame]
      refine .lapses _ (fun t ht => hsame ▸ h.le t ht) rfl ?_
      rw [← hpeer, ← hoptions]
  · next hearly =>
      have hworker : v'.stint.worker
          = { v.stint.worker with reader, phase := .waiting (since.plus a.options.readTimeout) } := by
        rw [hturns.worker, hnext]
        rfl
      refine .inr ⟨Nat.not_le.mp hearly, hturns.log_eq (hgoing _), by rw [hworker], by rw [hworker], ?_⟩
      refine ⟨hturns.closing.trans (hgoing _), by rw [hworker]; exact hplays, ?_, ?_, hnews.trans h.news⟩
      · rw [Waits, hworker, hturns.now]
        exact ⟨rfl, Nat.le_of_not_le hearly, hrests⟩
      · rw [hworker, hturns.now]
        exact hcomes.trans h.comes

theorem Waits.phase (h : v.Waits a since p) :
    v.stint.worker.phase = .starting ∨ v.stint.worker.phase = .ready ∨
      ∃ deadline, v.stint.worker.phase = .waiting deadline := by
  unfold Waits at h
  cases hphase : v.stint.worker.phase with
  | starting => exact .inl rfl
  | ready => exact .inr (.inl rfl)
  | waiting deadline => exact .inr (.inr ⟨deadline, rfl⟩)
  | _ =>
      rw [hphase] at h
      exact h.elim

/-- What is to come depends on what the reader has before it, whatever else changes. -/
theorem Awaits.of_reader (h : v.Awaits a since comes news p) (hopen : v'.stint.closing = none) (hnow : v'.now = v.now)
    (hreader : v'.stint.worker.reader = v.stint.worker.reader) (hwaits : v'.Waits a since p) :
    v'.Awaits a since comes news p := by
  refine ⟨hopen, hreader ▸ h.plays, hwaits, ?_, h.news⟩
  rw [hreader, hnow]
  exact h.comes

theorem Awaits.of_worker (h : v.Awaits a since comes news p) (hopen : v'.stint.closing = none) (hnow : v'.now = v.now)
    (hworker : v'.stint.worker = v.stint.worker) : v'.Awaits a since comes news p := by
  refine h.of_reader hopen hnow (congrArg _ hworker) ?_
  rw [Waits, hworker, hnow]
  exact h.waits

/-- Before a worker first looks at its connection it only says that it has started. -/
theorem Awaits.ready (h : v.Awaits a since comes news p) (hopen : v'.stint.closing = none) (hnow : v'.now = v.now)
    (hphase : v.stint.worker.phase = .starting) (hworker : v'.stint.worker = { v.stint.worker with phase := .ready }) :
    v'.Awaits a since comes news p := by
  have hwaits := h.waits
  rw [Waits, hphase] at hwaits
  refine h.of_reader hopen hnow (by rw [hworker]) ?_
  rw [Waits, hworker, hnow]
  exact hwaits

/-- What a worker finds ends the wait if it is not a pause; otherwise the deadline has come, or the wait goes on. -/
theorem Awaits.finds (h : v.Awaits a since comes news p) (hpeer : v.stint.worker.peer = a.peer)
    (hoptions : v.stint.worker.options = a.options) {heard : Prospect.Heard} {result : Reader.Result}
    (hheard : p.hear v.now v.stint.worker.reader.source.due? allowance = heard) (hturns : v.Turns heard.frame? t v')
    (hfound : v.stint.worker.Finds v.now (since.plus a.options.readTimeout) v.stint.queue a.options.framing
      a.options.maxRecordSize result heard t) :
    v.Ended a since comes news v' ∨ (v'.log = v.log ∧ ∃ p', v'.Awaits a since comes news p' ∧
      v.Lingers (since.plus a.options.readTimeout) p allowance v' p') := by
  have hagrees := p.agrees_hear v.now v.stint.worker.reader.source.due? h.waits.paused allowance
  have hrests := p.waits_hear h.waits.paused allowance
  rw [hheard] at hagrees hrests
  have hcomes {e : Entry} (hnow : p.comesAt? v.now v.stint.worker.reader.source.due? = some v.now)
      (hbrings : Brings a.peer e p.news) : Ends a since comes news v.now e :=
    .comes v.now e (h.comes.symm.trans hnow) h.waits.early (h.news ▸ hbrings)
  cases hfound with
  | record payload events =>
      refine .inl (hturns.ended rfl (hcomes hagrees.1 ?_))
      rw [hagrees.2]
      rfl
  | malformed unit events =>
      refine .inl (hturns.ended rfl (hcomes hagrees.1 ?_))
      rw [hagrees.2]
      rfl
  | ended events =>
      refine .inl (hturns.ended rfl (hcomes hagrees.1 ?_))
      rw [hagrees.2]
      exact ⟨_, rfl, rfl, rfl, rfl⟩
  | failed cause events =>
      refine .inl (hturns.ended rfl (hcomes hagrees.1 ?_))
      rw [hagrees.2, ← hpeer]
      exact ⟨_, rfl, rfl, rfl⟩
  | desync reason events =>
      refine .inl (hturns.ended rfl (hcomes hagrees.1 ?_))
      rw [hagrees.2, ← hpeer]
      exact ⟨_, _, rfl, rfl, rfl⟩
  | blocked events harrival hplays hfilling hstill =>
      refine (h.await hpeer hoptions (fun w => rfl) (fun w => rfl) hturns hplays hrests.1 hagrees.1
        hagrees.2.1).imp_right ?_
      rintro ⟨hearly, hlog, hreader, hafter, hawaits⟩
      rw [← hreader, ← hturns.now] at hstill
      exact ⟨hlog, _, hawaits, .blocked _ _ hheard hearly hafter hstill⟩
  | spent events harrival hplays =>
      refine (h.await hpeer hoptions (fun w => rfl) (fun w => rfl) hturns hplays hrests hagrees.1
        hagrees.2.1).imp_right ?_
      rintro ⟨hearly, hlog, hreader, hafter, hawaits⟩
      exact ⟨hlog, _, hawaits, .spent _ _ hheard hearly hafter⟩

/-- A turn ends the wait, or the wait goes on. -/
theorem Awaits.turn (h : v.Awaits a since comes news p) (hkept : v.Kept a) (hrunning : v.stint.stopping = false)
    (allowance : Nat) :
    v.Ended a since comes news (v.turn allowance) ∨
      ((v.turn allowance).log = v.log ∧ ∃ p', (v.turn allowance).Awaits a since comes news p' ∧
        v.Lingers (since.plus a.options.readTimeout) p allowance (v.turn allowance) p') := by
  obtain ⟨ps, hand, hserving, -, -⟩ := hkept.sound.going h.opened
  have hdoes := Worker.does_step h.plays v.now v.stint.stopping v.stint.queue allowance
  have hturns := v.turns_turn allowance
  generalize v.turn allowance = v' at *
  generalize v.stint.worker.frame? v.now v.stint.stopping v.stint.queue allowance = taken at *
  generalize v.stint.worker.step v.now v.stint.stopping v.stint.queue allowance = t at *
  have hbusy (hphase : v.stint.worker.phase ≠ .starting) (hphase' : v.stint.worker.phase ≠ .ready)
      (hphase'' : ∀ deadline, v.stint.worker.phase ≠ .waiting deadline) : False := by
    obtain hstarting | hready | ⟨deadline, hwaiting⟩ := h.waits.phase
    · exact hphase hstarting
    · exact hphase' hready
    · exact hphase'' deadline hwaiting
  cases hdoes with
  | starts hphase =>
      have hworker : v'.stint.worker = { v.stint.worker with phase := .ready } := hturns.worker
      exact .inr ⟨hturns.log_eq rfl, p, h.ready hturns.closing hturns.now hphase hworker,
        .starts hphase (by rw [hworker])⟩
  | spends hlooks hspent =>
      exact .inr ⟨hturns.log_eq rfl, p, h.of_worker hturns.closing hturns.now hturns.worker, .spends hspent⟩
  | stops hlooks hspare htold =>
      rw [hrunning] at htold
      cases htold
  | pushes payload hphase => exact (hbusy (by simp [hphase]) (by simp [hphase]) (by simp [hphase])).elim
  | resumes ticket q' result hphase => exact (hbusy (by simp [hphase]) (by simp [hphase]) (by simp [hphase])).elim
  | waits ticket hphase => exact (hbusy (by simp [hphase]) (by simp [hphase]) (by simp [hphase])).elim
  | finds hlooks hspare _ hfound =>
      obtain rfl := h.waits.deadline hserving.options hlooks
      exact h.finds hserving.peer hserving.options rfl hturns hfound

end Vigil

end LogIntake
