import LogIntake.Proofs.Connection.Verdict
import LogIntake.Proofs.Connection.Worker

/-!
# Workers and their verdicts

A worker whose pushes find room at once heads for its verdict: a step leaves the verdict as it is or makes it come
true, and time that passes while the worker rests leaves it as it is. When the worker is told to shut down at the time
at which its verdict has reckoned with that, it ends with the verdict, too.
-/

namespace LogIntake

/-- An error without the words in which a loss of synchronisation is reported. -/
def IntakeError.unworded : IntakeError → IntakeError
  | .framing peer _ => .framing peer ""
  | other => other

/-- A closing is what the verdict says. -/
structure Verdict.Fits (v : Verdict) (peer : SocketAddress) (k : Closing) : Prop where
  summary : k.summary = { k.summary with
    peer, records := v.records, malformed := v.malformed, discarded := v.discarded, reason := v.reason }
  error : k.error.map IntakeError.unworded = v.error

namespace Worker

def standing (w : Worker) (now deadline : Instant) : Standing :=
  { now, deadline, pausedUntil := w.reader.source.due?, records := w.records, malformed := w.malformed }

/-- Where a worker stands, its verdict is this one when so much is to come. -/
def Awaits (w : Worker) (t : Terms) (now : Instant) (p : Prospect) (v : Verdict) : Prop :=
  match w.phase with
  | .starting | .ready => w.reader.source.due? = none ∧
      v = let st := w.standing now (now.plus t.options.readTimeout)
        if Cutoff.spares t.cutoff now then p.verdict t st else st.cutOff t
  | .waiting deadline => now.nanos ≤ deadline.nanos ∧ p.Rests now w.reader.source.due? ∧
      v = p.verdict t (w.standing now deadline)
  | .holding _ => w.reader.source.due? = none ∧ Cutoff.spares t.cutoff now = true ∧
      v = p.verdict t { w.standing now (now.plus t.options.readTimeout) with records := w.records + 1 }
  | .pushing _ => False

/-- The verdict on the connection of a worker that has not been told to shut down. -/
structure Heads (w : Worker) (t : Terms) (now : Instant) (v : Verdict) : Prop where
  options : w.options = t.options
  peer : w.peer = t.peer
  awaits : ∃ p, w.reader.Plays t.options.framing t.options.maxRecordSize p ∧ w.Awaits t now p v

/-- A worker waits for something that does not come now. -/
def Idles (w : Worker) (now : Instant) : Prop :=
  ∃ deadline, w.phase = .waiting deadline ∧ now.nanos < deadline.nanos ∧
    ∀ stop, w.reader.source.due? = some stop → now.nanos < stop.nanos

/-- The pushes of a turn find room at once. -/
def Turn.findsRoom (turn : Turn) : Bool :=
  match turn.next with
  | .goesOn w | .blocked w | .spent w => w.ticket?.isNone
  | .ended k => k.summary.reason != .queue

/-- The verdict stands after a turn, or has come true. -/
def Turn.HeadsFor (turn : Turn) (t : Terms) (now : Instant) (v : Verdict) : Prop :=
  match turn.next with
  | .goesOn w | .spent w => w.Heads t now v
  | .blocked w => w.Heads t now v ∧ w.Idles now
  | .ended k => v.at_ = now ∧ v.Fits t.peer k

variable {w : Worker} {t : Terms} {now deadline : Instant} {v : Verdict} {q : Queue} {events : List Event}
  {allowance : Nat} {p : Prospect}

theorem headsFor_close {discarded : Nat} {reason : CloseReason} {error error' : Option IntakeError}
    (hpeer : w.peer = t.peer) (hdiscarded : w.reader.decoder.discarded = discarded)
    (herror : error.map IntakeError.unworded = error') :
    Turn.HeadsFor ⟨q, w.close reason error, events, allowance⟩ t now
      { at_ := now, records := w.records, malformed := w.malformed, discarded, reason, error := error' } := by
  refine ⟨rfl, ?_, herror⟩
  simp only [hpeer, hdiscarded]

theorem heads_handleRecord (hoptions : w.options = t.options) (hpeer : w.peer = t.peer)
    (hplays : w.reader.Plays t.options.framing t.options.maxRecordSize p) (hdue : w.reader.source.due? = none)
    (hspares : Cutoff.spares t.cutoff now = true) (payload : Bytes)
    (hv : v = p.verdict t { w.standing now (now.plus t.options.readTimeout) with records := w.records + 1 })
    (hroom : (w.handleRecord now q events allowance payload).findsRoom = true) :
    (w.handleRecord now q events allowance payload).HeadsFor t now v := by
  unfold handleRecord at hroom ⊢
  split
  · exact ⟨hoptions, hpeer, p, hplays, hdue, hspares, hv⟩
  · next hgoes =>
      rw [if_neg hgoes] at hroom
      split
      · next q' result hpush =>
          rw [hpush] at hroom
          cases result with
          | taken =>
              refine ⟨hoptions, hpeer, p, hplays, hdue, ?_⟩
              simp only [hspares, if_true]
              exact hv
          | failed e => cases hroom
      · next q' ticket hpush =>
          rw [hpush] at hroom
          cases hroom

theorem heads_handleMalformed (hoptions : w.options = t.options) (hpeer : w.peer = t.peer)
    (hplays : w.reader.Plays t.options.framing t.options.maxRecordSize p) (hdue : w.reader.source.due? = none)
    (hspares : Cutoff.spares t.cutoff now = true) (unit : Malformed)
    (hv : v = (Prospect.frame (.malformed unit) p).verdict t (w.standing now deadline)) :
    (w.handleMalformed q events allowance unit).HeadsFor t now v := by
  have hpolicy : w.options.policy = t.options.policy := by rw [hoptions]
  unfold Prospect.verdict at hv
  unfold handleMalformed
  simp only
  split
  · next hdrop =>
      rw [← hpolicy, hdrop] at hv
      refine ⟨hoptions, hpeer, p, hplays, hdue, ?_⟩
      simp only [hspares, if_true, standing, hdue]
      exact hv
  · next hterminate =>
      rw [← hpolicy, hterminate] at hv
      subst hv
      exact headsFor_close (w := { w with phase := .ready, malformed := w.malformed + 1 }) hpeer hplays.discarded
        (by rw [hpeer]; rfl)

theorem headsFor_await (hoptions : w.options = t.options) (hpeer : w.peer = t.peer)
    (hplays : w.reader.Plays t.options.framing t.options.maxRecordSize p)
    (hspares : Cutoff.spares t.cutoff now = true) (hdeadline : now.nanos ≤ deadline.nanos)
    (hrests : p.Rests now w.reader.source.due?)
    (hv : v = if now.nanos < deadline.nanos then p.verdict t (w.standing now deadline)
      else (w.standing now deadline).expire t) (next : Worker → Next)
    (hnext : now.nanos < deadline.nanos → Heads { w with phase := .waiting deadline } t now v →
      Turn.HeadsFor ⟨q, next { w with phase := .waiting deadline }, events, allowance⟩ t now v) :
    (w.await now deadline q events allowance next).HeadsFor t now v := by
  unfold await
  split
  · next hover =>
      have hsame : deadline = now := congrArg Duration.mk (Nat.le_antisymm hover hdeadline)
      rw [if_neg (Nat.not_lt.mpr hover), Standing.expire, show (w.standing now deadline).deadline = now from hsame,
        if_pos hspares] at hv
      subst hv
      exact headsFor_close hpeer hplays.discarded (by rw [hpeer, hoptions]; rfl)
  · next hearly =>
      rw [if_pos (by omega)] at hv
      exact hnext (by omega) ⟨hoptions, hpeer, p, hplays, hdeadline, hrests, hv⟩

theorem heads_takeFrame (hoptions : w.options = t.options) (hpeer : w.peer = t.peer)
    (hplays : w.reader.Plays t.options.framing t.options.maxRecordSize p)
    (hspares : Cutoff.spares t.cutoff now = true) (hdeadline : now.nanos ≤ deadline.nanos)
    (hpaused : ∀ stop, w.reader.source.due? = some stop → now.nanos ≤ stop.nanos)
    (hallowance : now.nanos < deadline.nanos ∨ allowance = Execution.allowance)
    (hv : v = p.verdict t (w.standing now deadline))
    (hroom : (w.takeFrame now deadline q allowance).findsRoom = true) :
    (w.takeFrame now deadline q allowance).HeadsFor t now v := by
  have hheard : v = (p.hear now w.reader.source.due? allowance).verdict t (w.standing now deadline) :=
    hv.trans (p.verdict_hear hspares hdeadline hpaused (hallowance.imp_right Eq.symm))
  have hwaits := p.waits_hear hpaused allowance
  have hrenders := hplays.next now (w.newest? q) allowance
  unfold takeFrame at hroom ⊢
  generalize w.reader.next now (w.newest? q) allowance = result at *
  obtain ⟨reader, arrival, signalled, left⟩ := result
  generalize p.hear now w.reader.source.due? allowance = heard at *
  simp only at hroom ⊢
  generalize (if signalled then [Event.signalled] else []) = events at *
  cases heard with
  | frame f rest =>
      obtain ⟨rfl, hrest, hdue⟩ := hrenders
      change reader.source.due? = none at hdue
      cases f with
      | record payload =>
          refine heads_handleRecord (w := { w with reader }) hoptions hpeer hrest hdue hspares payload ?_ hroom
          rw [hheard]
          simp only [standing, hdue]
          rfl
      | malformed unit =>
          have hframe : v = (Prospect.frame (.malformed unit) rest).verdict t
              (standing { w with reader } now deadline) := by
            rw [hheard]
            simp only [standing, hdue]
            rfl
          exact heads_handleMalformed (w := { w with reader }) hoptions hpeer hrest hdue hspares unit hframe
  | ended tail =>
      obtain ⟨rfl, hdiscarded⟩ := hrenders
      subst hheard
      exact headsFor_close (w := { w with reader }) hpeer hdiscarded rfl
  | failed cause =>
      obtain ⟨rfl, hdiscarded⟩ := hrenders
      subst hheard
      exact headsFor_close (w := { w with reader }) hpeer hdiscarded (by rw [← hpeer]; rfl)
  | desync =>
      obtain ⟨⟨reason, rfl⟩, hdiscarded⟩ := hrenders
      subst hheard
      exact headsFor_close (w := { w with reader }) hpeer hdiscarded (by rw [← hpeer]; rfl)
  | blocked rest until_ =>
      obtain ⟨rfl, hrest, rfl⟩ := hrenders
      obtain ⟨hrests, hlater⟩ := hwaits
      refine headsFor_await (w := { w with reader }) hoptions hpeer hrest hspares hdeadline hrests hheard _
        fun hearly hheads => ⟨hheads, deadline, rfl, hearly, hlater⟩
  | spent rest until_ =>
      obtain ⟨rfl, hrest, rfl⟩ := hrenders
      exact headsFor_await (w := { w with reader }) hoptions hpeer hrest hspares hdeadline hwaits hheard _
        fun _ hheads => hheads

/-! ## Until the signal -/

theorem Heads.step (h : w.Heads t now v) (hspares : Cutoff.spares t.cutoff now = true)
    (htimeout : 0 < t.options.readTimeout.nanos)
    (hwhole : ∀ deadline, w.phase = .waiting deadline → allowance = Execution.allowance)
    (hroom : (w.step now false q allowance).findsRoom = true) : (w.step now false q allowance).HeadsFor t now v := by
  obtain ⟨hoptions, hpeer, p, hplays, hawaits⟩ := h
  unfold Worker.step at hroom ⊢
  unfold Awaits at hawaits
  cases hphase : w.phase with
  | starting =>
      simp only [hphase] at hawaits
      exact ⟨hoptions, hpeer, p, hplays, hawaits⟩
  | ready =>
      simp only [hphase, hspares, if_true] at hawaits hroom ⊢
      obtain ⟨hdue, hv⟩ := hawaits
      rw [← hoptions] at hv
      unfold begin at hroom ⊢
      split
      · refine ⟨hoptions, hpeer, p, hplays, ?_⟩
        simp only [Awaits, hphase, hspares, if_true, ← hoptions]
        exact ⟨hdue, hv⟩
      · next hallowance =>
          rw [if_neg hallowance] at hroom
          have hlater : now.nanos < (now.plus w.options.readTimeout).nanos := by
            rw [hoptions]
            exact Nat.lt_add_of_pos_right htimeout
          have hpaused : ∀ stop, w.reader.source.due? = some stop → now.nanos ≤ stop.nanos := by
            rw [hdue]
            simp
          exact heads_takeFrame hoptions hpeer hplays hspares (Nat.le_of_lt hlater) hpaused (Or.inl hlater) hv hroom
  | waiting deadline =>
      simp only [hphase] at hawaits hroom ⊢
      obtain ⟨hdeadline, hrests, hv⟩ := hawaits
      obtain rfl := hwhole deadline hphase
      exact heads_takeFrame hoptions hpeer hplays hspares hdeadline hrests.le (Or.inr rfl) hv hroom
  | holding payload =>
      simp only [hphase] at hawaits hroom ⊢
      obtain ⟨hdue, -, hv⟩ := hawaits
      exact heads_handleRecord hoptions hpeer hplays hdue hspares payload hv hroom
  | pushing ticket =>
      rw [hphase] at hawaits
      exact hawaits.elim

/-- A worker rests that a turn would leave waiting where it is. -/
theorem Heads.idles (h : w.Heads t now v) (hspares : Cutoff.spares t.cutoff now = true)
    (htimeout : 0 < t.options.readTimeout.nanos)
    (hrests : (w.step now false q Execution.allowance).next = .blocked w) : w.Idles now := by
  have hroom : (w.step now false q Execution.allowance).findsRoom = true := by
    obtain ⟨-, -, p, -, hawaits⟩ := h
    unfold Awaits at hawaits
    simp only [Turn.findsRoom, hrests, ticket?]
    cases hphase : w.phase with
    | pushing ticket =>
        rw [hphase] at hawaits
        exact hawaits.elim
    | _ => rfl
  have hstep := h.step hspares htimeout (fun _ _ => rfl) hroom
  rw [Turn.HeadsFor, hrests] at hstep
  exact hstep.2

/-- The next time of a worker that waits is not after its deadline, nor after the end of a pause that has begun. -/
theorem le_of_nextTime (hphase : w.phase = .waiting deadline) {later : Instant}
    (hnext : ∀ due, w.nextTime = some due → later.nanos ≤ due.nanos) :
    later.nanos ≤ deadline.nanos ∧ ∀ stop, w.reader.source.due? = some stop → later.nanos ≤ stop.nanos := by
  have hbounds : later.nanos ≤ deadline.nanos ∧
      ∀ stop, w.reader.source.pausedUntil = some stop → later.nanos ≤ stop.nanos := by
    simp only [nextTime, hphase] at hnext
    cases hpaused : w.reader.source.pausedUntil with
    | none =>
        rw [hpaused] at hnext
        exact ⟨hnext _ rfl, by simp⟩
    | some stop =>
        simp only [hpaused, Option.some.injEq, forall_eq'] at hnext ⊢
        split at hnext
        · omega
        · omega
  exact ⟨hbounds.1, fun stop hdue => hbounds.2 stop (Source.pausedUntil_of_due? hdue)⟩

theorem Heads.elapse (h : w.Heads t now v) (hidles : w.Idles now) {later : Instant}
    (hnext : ∀ due, w.nextTime = some due → later.nanos ≤ due.nanos) : w.Heads t later v := by
  obtain ⟨hoptions, hpeer, p, hplays, hawaits⟩ := h
  obtain ⟨deadline, hphase, -, -⟩ := hidles
  refine ⟨hoptions, hpeer, p, hplays, ?_⟩
  simp only [Awaits, hphase] at hawaits ⊢
  obtain ⟨-, hrests, rfl⟩ := hawaits
  have hbounds := le_of_nextTime hphase hnext
  have hdue := hrests.later hbounds.2
  have hsame : p.verdict t (w.standing later deadline) = p.verdict t (w.standing now deadline) :=
    Prospect.Rests.verdict_eq (w.standing now deadline) hrests rfl later
  exact ⟨hbounds.1, hdue, hsame.symm⟩

theorem Heads.le (h : w.Heads t now v) (hcutoff : ∀ c, t.cutoff = some c → now.nanos ≤ c.at_.nanos) :
    now.nanos ≤ v.at_.nanos := by
  obtain ⟨-, -, p, -, hawaits⟩ := h
  unfold Awaits at hawaits
  have hbegun (hdue : w.reader.source.due? = none) (records : Nat) :
      now.nanos ≤ (p.verdict t { w.standing now (now.plus t.options.readTimeout) with records }).at_.nanos := by
    have hpaused (stop : Instant) (hstop : w.reader.source.due? = some stop) : now.nanos ≤ stop.nanos := by
      rw [hstop] at hdue
      cases hdue
    exact Prospect.le_verdict { w.standing now (now.plus t.options.readTimeout) with records } p
      (Nat.le_add_right _ _) hpaused hcutoff
  cases hphase : w.phase with
  | waiting deadline =>
      simp only [hphase] at hawaits
      obtain ⟨hdeadline, hrests, rfl⟩ := hawaits
      exact Prospect.le_verdict (w.standing now deadline) p hdeadline hrests.le hcutoff
  | holding payload =>
      simp only [hphase] at hawaits
      obtain ⟨hdue, -, rfl⟩ := hawaits
      exact hbegun hdue _
  | pushing ticket =>
      rw [hphase] at hawaits
      exact hawaits.elim
  | _ =>
      simp only [hphase] at hawaits
      obtain ⟨hdue, rfl⟩ := hawaits
      split
      · exact hbegun hdue w.records
      · next hspares =>
          exact (w.standing now (now.plus t.options.readTimeout)).le_cutOff hcutoff hspares

theorem heads_start (connection : Nat) (peer : SocketAddress) (options : WorkerOptions) (cutoff : Option Cutoff)
    (steps : List Source.Step) (now : Instant) :
    (start connection peer options steps).Heads ⟨options, peer, cutoff⟩ now
      (Terms.verdict ⟨options, peer, cutoff⟩ steps now) :=
  ⟨rfl, rfl, _, Reader.plays_start steps _ options.framing options.maxRecordSize, Source.due?_none steps, by
    simp only [standing, start, Source.due?_none]
    rfl⟩

/-! ## After the signal -/

/-- The verdict on the connection of a worker that has been told to shut down. -/
structure Halts (w : Worker) (t : Terms) (now : Instant) (v : Verdict) : Prop where
  peer : w.peer = t.peer
  between : w.phase = .starting ∨ w.phase = .ready ∨ ∃ deadline, w.phase = .waiting deadline
  discarded : w.reader.decoder.discarded = 0
  verdict : v = { at_ := now, records := w.records, malformed := w.malformed, reason := .shutdown }

/-- The signal comes when the verdict has reckoned with it. -/
theorem Heads.halts (h : w.Heads t now v) {late : Bool} (hcutoff : t.cutoff = some ⟨now, late⟩)
    (hidles : late = true → w.Idles now) : w.Halts t now v := by
  obtain ⟨-, hpeer, p, hplays, hawaits⟩ := h
  have hcut (deadline : Instant) : (w.standing now deadline).cutOff t
      = { at_ := now, records := w.records, malformed := w.malformed, reason := .shutdown } := by
    rw [Standing.cutOff, hcutoff]
    rfl
  -- After a late signal nothing is due any more, since a worker that idles has done what was due before.
  have hspares (stop : Instant) (hstop : now.nanos ≤ stop.nanos) (hlater : late = true → now.nanos < stop.nanos) :
      Cutoff.spares t.cutoff stop = false := by
    cases late with
    | false => simp [Cutoff.spares, hcutoff, hstop]
    | true =>
        have hstill := hlater rfl
        simp [Cutoff.spares, hcutoff, hstop]
        omega
  have hcalls (hbusy : ∀ deadline, w.phase ≠ .waiting deadline) : Cutoff.spares t.cutoff now = false := by
    refine hspares now (Nat.le_refl _) fun hlate => ?_
    obtain ⟨deadline, hwaiting, -⟩ := hidles hlate
    exact absurd hwaiting (hbusy deadline)
  unfold Awaits at hawaits
  cases hphase : w.phase with
  | waiting deadline =>
      simp only [hphase] at hawaits
      obtain ⟨hdeadline, hrests, rfl⟩ := hawaits
      have hlater (hlate : late = true) : now.nanos < deadline.nanos ∧
          ∀ stop, w.reader.source.due? = some stop → now.nanos < stop.nanos := by
        obtain ⟨deadline', hwaiting, hidle⟩ := hidles hlate
        cases hphase.symm.trans hwaiting
        exact hidle
      refine ⟨hpeer, Or.inr (Or.inr ⟨deadline, hphase⟩), hplays.discarded, ?_⟩
      rw [← hcut deadline]
      exact Prospect.Rests.verdict_cutOff (w.standing now deadline) hrests
        (fun stop hstop => hspares stop (hrests.le stop hstop) fun hlate => (hlater hlate).2 stop hstop)
        (hspares deadline hdeadline fun hlate => (hlater hlate).1)
  | holding payload =>
      simp only [hphase] at hawaits
      have hspared := hcalls fun deadline => by rw [hphase]; exact Phase.noConfusion
      rw [hawaits.2.1] at hspared
      cases hspared
  | pushing ticket =>
      rw [hphase] at hawaits
      exact hawaits.elim
  | starting =>
      simp only [hphase, hcalls fun deadline => by rw [hphase]; exact Phase.noConfusion] at hawaits
      exact ⟨hpeer, Or.inl hphase, hplays.discarded, hawaits.2.trans (hcut _)⟩
  | ready =>
      simp only [hphase, hcalls fun deadline => by rw [hphase]; exact Phase.noConfusion] at hawaits
      exact ⟨hpeer, Or.inr (Or.inl hphase), hplays.discarded, hawaits.2.trans (hcut _)⟩

/-- A worker has its verdict before it, whether or not it has been told to shut down. -/
def Meets (w : Worker) (t : Terms) (stopping : Bool) (now : Instant) (v : Verdict) : Prop :=
  if stopping then w.Halts t now v else w.Heads t now v

/-- The verdict stands after a turn, or has come true. -/
def Turn.Meets (turn : Turn) (t : Terms) (stopping : Bool) (now : Instant) (v : Verdict) : Prop :=
  (∀ w, turn.next.worker? = some w → w.Meets t stopping now v) ∧
    ∀ k, turn.next = .ended k → v.at_ = now ∧ v.Fits t.peer k

theorem Turn.meets_of_left {turn : Turn} {stopping : Bool} (hnext : turn.next.worker? = some w)
    (h : w.Meets t stopping now v) : turn.Meets t stopping now v := by
  refine ⟨fun u hu => Option.some.inj (hnext.symm.trans hu) ▸ h, fun k hk => ?_⟩
  rw [hk] at hnext
  cases hnext

theorem Turn.meets_of_ended {turn : Turn} {stopping : Bool} {k : Closing} (hnext : turn.next = .ended k)
    (hat : v.at_ = now) (hfits : v.Fits t.peer k) : turn.Meets t stopping now v := by
  refine ⟨fun u hu => ?_, fun k' hk => ?_⟩
  · rw [hnext] at hu
    cases hu
  · obtain rfl := Next.ended.inj (hnext.symm.trans hk)
    exact ⟨hat, hfits⟩

theorem Halts.step (h : w.Halts t now v) (q : Queue) (allowance : Nat) :
    (w.step now true q allowance).Meets t true now v := by
  have hbegin (deadline : Instant) : (w.begin now deadline true q allowance).Meets t true now v := by
    unfold begin
    split
    · exact Turn.meets_of_left rfl h
    · rw [if_pos rfl]
      obtain ⟨hpeer, -, hdiscarded, rfl⟩ := h
      refine Turn.meets_of_ended rfl rfl ⟨?_, rfl⟩
      simp only [hpeer, hdiscarded]
  unfold Worker.step
  obtain hphase | hphase | ⟨deadline, hphase⟩ := h.between
  · rw [hphase]
    exact Turn.meets_of_left (w := { w with phase := .ready }) rfl
      (show Halts _ t now v from ⟨h.peer, Or.inr (Or.inl rfl), h.discarded, h.verdict⟩)
  · rw [hphase]
    exact hbegin _
  · rw [hphase]
    exact hbegin deadline

theorem Turn.HeadsFor.meets {turn : Turn} (h : turn.HeadsFor t now v) : turn.Meets t false now v := by
  unfold HeadsFor at h
  cases hnext : turn.next with
  | ended k =>
      rw [hnext] at h
      exact meets_of_ended hnext h.1 h.2
  | blocked u =>
      rw [hnext] at h
      exact meets_of_left (w := u) (by rw [hnext]; rfl) h.1
  | _ u =>
      rw [hnext] at h
      exact meets_of_left (w := u) (by rw [hnext]; rfl) h

theorem Meets.step {stopping : Bool} (h : w.Meets t stopping now v)
    (hspares : stopping = false → Cutoff.spares t.cutoff now = true) (htimeout : 0 < t.options.readTimeout.nanos)
    (hwhole : ∀ deadline, w.phase = .waiting deadline → allowance = Execution.allowance)
    (hroom : (w.step now stopping q allowance).findsRoom = true) :
    (w.step now stopping q allowance).Meets t stopping now v := by
  cases stopping with
  | true => exact Halts.step h q allowance
  | false => exact (Heads.step h (hspares rfl) htimeout hwhole hroom).meets

theorem Meets.le {stopping : Bool} (h : w.Meets t stopping now v)
    (hcutoff : stopping = false → ∀ c, t.cutoff = some c → now.nanos ≤ c.at_.nanos) : now.nanos ≤ v.at_.nanos := by
  cases stopping with
  | true =>
      have hat : v.at_ = now := congrArg (·.at_) (Halts.verdict h)
      exact Nat.le_of_eq (congrArg Duration.nanos hat.symm)
  | false => exact Heads.le h (hcutoff rfl)

/-- Once it has been told to shut down, a worker does not rest. -/
theorem Halts.not_rests (h : w.Halts t now v) (q : Queue) {allowance : Nat} (hallowance : allowance ≠ 0) :
    (w.step now true q allowance).next ≠ .blocked w := by
  unfold Worker.step begin
  obtain hphase | hphase | ⟨deadline, hphase⟩ := h.between
  · simp [hphase]
  · simp [hphase, hallowance, close]
  · simp [hphase, hallowance, close]

end Worker

end LogIntake
