import LogIntake.Proofs.Site.Timetable

/-!
# What ends a listener

Only the signal to shut down and a failure of its own socket end a listener. No connection does, whatever its peer
does and whatever becomes of it.
-/

namespace LogIntake

/-! ## Connections without the signal -/

/-- The signal to shut down does not come out of a source. -/
def Source.Mute (s : Source) : Prop :=
  ∀ step ∈ s.steps, step ≠ .signal

theorem Source.mute_readSteps (now : Instant) (room : Nat) (pausedUntil : Option Instant) (signalled : Bool)
    (allowance : Nat) {steps : List Step} (h : ∀ step ∈ steps, step ≠ .signal) :
    (readSteps now room pausedUntil signalled allowance steps).rest.Mute ∧
      (readSteps now room pausedUntil signalled allowance steps).signalled = signalled := by
  induction steps generalizing pausedUntil allowance with
  | nil => exact ⟨h, rfl⟩
  | cons step rest ih =>
      obtain ⟨hstep, hrest⟩ := List.forall_mem_cons.mp h
      cases step with
      | data bytes =>
          unfold readSteps
          split
          · exact ih none allowance hrest
          · split
            · exact ⟨hrest, rfl⟩
            · exact ⟨List.forall_mem_cons.mpr ⟨Step.noConfusion, hrest⟩, rfl⟩
      | pause span =>
          unfold readSteps
          simp only
          split
          · exact ⟨h, rfl⟩
          · split
            · exact ih none (allowance - 1) hrest
            · exact ⟨h, rfl⟩
      | failure cause => exact ⟨hrest, rfl⟩
      | signal => exact absurd rfl hstep
      | silence => exact ⟨h, rfl⟩

/-- What is left of a reader gives no signal, and no more of it has been given than before. -/
structure Reader.Result.Mute (result : Reader.Result) (signalled : Bool) : Prop where
  rest : result.reader.source.Mute
  signalled : result.signalled = signalled

namespace Reader

variable {r : Reader}

theorem mute_finish (h : r.source.Mute) (signalled : Bool) (allowance : Nat) :
    (r.finish signalled allowance).Mute signalled := by
  refine ⟨by rwa [source_finish], ?_⟩
  unfold finish
  split
  · rfl
  · rfl
  · rfl

theorem mute_fill (now : Instant) (newest : Option Nat) (h : r.source.Mute) (signalled : Bool) (allowance : Nat) :
    (fill now newest r signalled allowance).Mute signalled := by
  have hread {r : Reader} (h : r.source.Mute) (room signalled allowance) :
      (r.source.read now room allowance).rest.Mute ∧
        (signalled || (r.source.read now room allowance).signalled) = signalled := by
    obtain ⟨hrest, hsame⟩ := Source.mute_readSteps now (max 1 room) r.source.pausedUntil false allowance h
    refine ⟨hrest, ?_⟩
    rw [Source.read, hsame, Bool.or_false]
  fun_induction fill now newest r signalled allowance with
  | case1 r signalled allowance ready reading _ _ bytes hbytes fed d frame hd =>
      obtain ⟨hrest, hsame⟩ := hread h (ready.storage.room r.decoder.buffer.length) signalled allowance
      exact ⟨by rw [source_settle]; exact hrest, hsame⟩
  | case2 r signalled allowance ready reading _ _ bytes hbytes fed d hd ih =>
      obtain ⟨hrest, hsame⟩ := hread h (ready.storage.room r.decoder.buffer.length) signalled allowance
      have hnext := ih (by rw [source_settle]; exact hrest)
      exact ⟨hnext.rest, hnext.signalled.trans hsame⟩
  | case3 r signalled allowance ready reading _ _ bytes hbytes fed d desync hd =>
      obtain ⟨hrest, hsame⟩ := hread h (ready.storage.room r.decoder.buffer.length) signalled allowance
      exact ⟨by rw [source_settle]; exact hrest, hsame⟩
  | case4 r signalled allowance ready reading _ rest hended =>
      obtain ⟨hrest, hsame⟩ := hread h (ready.storage.room r.decoder.buffer.length) signalled allowance
      have hfinish := mute_finish (r := rest) hrest (signalled || reading.signalled) reading.allowance
      exact ⟨hfinish.rest, hfinish.signalled.trans hsame⟩
  | case5 r signalled allowance ready reading _ _ cause hfailed =>
      obtain ⟨hrest, hsame⟩ := hread h (ready.storage.room r.decoder.buffer.length) signalled allowance
      exact ⟨hrest, hsame⟩
  | case6 r signalled allowance ready reading _ rest hblocked =>
      obtain ⟨hrest, hsame⟩ := hread h (ready.storage.room r.decoder.buffer.length) signalled allowance
      exact ⟨hrest, hsame⟩
  | case7 r signalled allowance ready reading _ rest hspent =>
      obtain ⟨hrest, hsame⟩ := hread h (ready.storage.room r.decoder.buffer.length) signalled allowance
      exact ⟨hrest, hsame⟩

theorem mute_next (now : Instant) (newest : Option Nat) (h : r.source.Mute) (allowance : Nat) :
    (r.next now newest allowance).Mute false := by
  unfold Reader.next
  cases r.stage with
  | filling => exact mute_fill now newest h false allowance
  | ending => exact mute_finish h false allowance
  | framing =>
      simp only
      split
      · exact ⟨by rwa [source_settle], rfl⟩
      · exact mute_fill now newest (by rwa [source_settle]) false allowance
      · exact ⟨by rwa [source_settle], rfl⟩

end Reader

namespace Worker

/-- No signal comes out of a turn, nor will one come out of the connection. -/
structure Turn.Mute (turn : Turn) : Prop where
  events : turn.events.contains .signalled = false
  next : ∀ v, turn.next.worker? = some v → v.reader.source.Mute

variable {w : Worker} {turn : Turn}

theorem Turn.mute_of_left (hevents : turn.events.contains .signalled = false) (hnext : turn.next.worker? = some w)
    (h : w.reader.source.Mute) : turn.Mute :=
  ⟨hevents, fun _ hv => Option.some.inj (hnext.symm.trans hv) ▸ h⟩

theorem Turn.mute_of_ended {k : Closing} (hevents : turn.events.contains .signalled = false)
    (hnext : turn.next = .ended k) : turn.Mute := by
  refine ⟨hevents, fun v hv => ?_⟩
  rw [hnext] at hv
  cases hv

theorem mute_afterPush (h : w.reader.source.Mute) (q : Queue) {events : List Event}
    (hevents : events.contains .signalled = false) (allowance : Nat) (result : PushResult) :
    (w.afterPush q events allowance result).Mute := by
  cases result with
  | taken => exact Turn.mute_of_left (by simpa [afterPush] using hevents) rfl h
  | failed e => exact Turn.mute_of_ended hevents rfl

theorem mute_handleRecord (h : w.reader.source.Mute) (now : Instant) (q : Queue) {events : List Event}
    (hevents : events.contains .signalled = false) (allowance : Nat) (payload : Bytes) :
    (w.handleRecord now q events allowance payload).Mute := by
  unfold handleRecord
  split
  · exact Turn.mute_of_left hevents rfl h
  · split
    · exact mute_afterPush h _ hevents _ _
    · exact Turn.mute_of_left hevents rfl h

theorem mute_handleMalformed (h : w.reader.source.Mute) (q : Queue) {events : List Event}
    (hevents : events.contains .signalled = false) (allowance : Nat) (unit : Malformed) :
    (w.handleMalformed q events allowance unit).Mute := by
  unfold handleMalformed
  simp only
  split
  · exact Turn.mute_of_left (by simpa using hevents) rfl h
  · exact Turn.mute_of_ended (by simpa using hevents) rfl

theorem mute_takeFrame (h : w.reader.source.Mute) (now deadline : Instant) (q : Queue) (allowance : Nat) :
    (w.takeFrame now deadline q allowance).Mute := by
  have hnext := Reader.mute_next now (w.newest? q) h allowance
  unfold takeFrame
  generalize w.reader.next now (w.newest? q) allowance = result at *
  obtain ⟨hrest, hsignalled⟩ := hnext
  have hawait {next : Worker → Next} (hworker : ∀ v, (next v).worker? = some v) :
      ({ w with reader := result.reader }.await now deadline q [] result.allowance next).Mute := by
    unfold await
    split
    · exact Turn.mute_of_ended rfl rfl
    · exact Turn.mute_of_left (w := { w with reader := result.reader, phase := .waiting deadline }) rfl (hworker _)
        hrest
  simp only [hsignalled]
  split
  · exact mute_handleRecord (w := { w with reader := result.reader }) hrest now q rfl _ _
  · exact mute_handleMalformed (w := { w with reader := result.reader }) hrest q rfl _ _
  · exact Turn.mute_of_ended rfl rfl
  · exact Turn.mute_of_ended rfl rfl
  · exact Turn.mute_of_ended rfl rfl
  · exact hawait fun _ => rfl
  · exact hawait fun _ => rfl

theorem mute_step (h : w.reader.source.Mute) (now : Instant) (stopping : Bool) (q : Queue) (allowance : Nat) :
    (w.step now stopping q allowance).Mute := by
  have hbegin (deadline : Instant) : (w.begin now deadline stopping q allowance).Mute := by
    unfold begin
    split
    · exact Turn.mute_of_left rfl rfl h
    · split
      · exact Turn.mute_of_ended rfl rfl
      · exact mute_takeFrame h now deadline q allowance
  unfold Worker.step
  split
  · exact Turn.mute_of_left (w := { w with phase := .ready }) rfl rfl h
  · exact hbegin _
  · exact hbegin _
  · exact mute_handleRecord h now q rfl _ _
  · split
    · exact mute_afterPush h _ rfl _ _
    · exact Turn.mute_of_left rfl rfl h

end Worker

/-! ## Listeners that nobody stops -/

/-- Whether an offer can end a listener: the signal comes out of it, or it is a failure of the listening socket. -/
def Offer.isFinal (o : Offer) : Bool :=
  match o.accepted with
  | .connection _ steps => steps.contains .signal
  | .failed cause => cause.endsListening

namespace Listener

variable {l l' : Listener} {i i' : Intake} {got : Option Accepted}

theorem offer_of_receives {allowance : Nat} {accepted : Accepted} (h : l.receives i allowance = some accepted) :
    ∃ offer rest, l.offers = offer :: rest ∧ offer.accepted = accepted := by
  unfold receives at h
  split at h
  · next offer rest hphase hoffers =>
      split at h
      · cases h
      · exact ⟨offer, rest, hoffers, Option.some.inj h⟩
  · cases h

theorem offers_accept (l : Listener) (i : Intake) (allowance : Nat) :
    (l.accept i allowance).1.offers <:+ l.offers := by
  unfold Listener.accept
  split
  · exact List.suffix_refl _
  · next offer rest hoffers =>
      split
      · exact List.suffix_refl _
      · rw [hoffers]
        simp only
        split
        · unfold dispatch
          split
          · exact List.suffix_cons ..
          · exact List.suffix_cons ..
        · split
          · exact List.nil_suffix
          · exact List.suffix_cons ..

theorem offers_step (l : Listener) (i : Intake) (allowance : Nat) : (l.step i allowance).1.offers <:+ l.offers := by
  unfold Listener.step
  split
  · exact List.suffix_refl _
  · split
    · exact List.suffix_refl _
    · split
      · exact List.nil_suffix
      · exact l.offers_accept i allowance
  · split
    · exact List.suffix_refl _
    · split
      · exact List.suffix_refl _
      · split
        · exact List.suffix_refl _
        · exact List.suffix_refl _
  · split
    · unfold finish
      simp only
      split
      · exact List.suffix_refl _
      · exact List.suffix_refl _
    · exact List.suffix_refl _
  · exact List.suffix_refl _

end Listener

namespace Site

variable {s : Site}

structure Unended (s : Site) : Prop where
  going : ¬ s.listener.Told
  offers : ∀ offer ∈ s.listener.offers, offer.isFinal = false
  workers : ∀ w ∈ s.intake.workers, w.reader.source.Mute

theorem unended_course {l l' : Listener} {i i' : Intake} {got : Option LogIntake.Accepted} (h : l.Course i got l' i')
    (hgoing : ¬ l.Told) (hgot : ∀ accepted, got = some accepted → ∃ offer : Offer, offer.accepted = accepted ∧
      offer.isFinal = false) (hworkers : ∀ w ∈ i.workers, w.reader.source.Mute) :
    ¬ l'.Told ∧ ∀ w ∈ i'.workers, w.reader.source.Mute := by
  have hphase (hphase : l'.phase = l.phase) (hcancelled : l'.cancelled = l.cancelled) : ¬ l'.Told := by
    rwa [Listener.Told, isLeaving_congr hphase, hcancelled]
  cases h with
  | waits => exact ⟨hgoing, hworkers⟩
  | opens log phase => exact ⟨fun htold => hgoing (Or.inl (htold.cancelled rfl)), hworkers⟩
  | told log phase cancelled => exact absurd (Or.inl cancelled) hgoing
  | finishes deadline failure phase ended => exact absurd (Or.inr (by simp [Listener.isLeaving, phase])) hgoing
  | rejects peer steps rest phase full => exact ⟨hphase rfl rfl, hworkers⟩
  | serves peer steps rest phase free =>
      refine ⟨hphase rfl rfl, fun w hw => ?_⟩
      rcases List.mem_append.mp hw with hold | hnew
      · exact hworkers w hold
      · obtain rfl := List.mem_singleton.mp hnew
        obtain ⟨offer, haccepted, hfinal⟩ := hgot _ rfl
        simp only [Offer.isFinal, haccepted] at hfinal
        rintro step hstep rfl
        rw [List.contains_eq_mem, decide_eq_false_iff_not] at hfinal
        exact hfinal hstep
  | backsOff cause rest phase mild => exact ⟨fun htold => hgoing (Or.inl (htold.cancelled rfl)), hworkers⟩
  | breaks cause rest log phase grave =>
      obtain ⟨offer, haccepted, hfinal⟩ := hgot _ rfl
      simp [Offer.isFinal, haccepted, grave] at hfinal

theorem Unended.stepListener (h : s.Unended) (allowance : Nat) : (s.stepListener allowance).Unended := by
  have hcourse := Listener.course_step s.listener s.intake allowance
  obtain ⟨hgoing, hworkers⟩ := unended_course hcourse h.going (fun accepted hgot => by
    obtain ⟨offer, rest, hoffers, haccepted⟩ := Listener.offer_of_receives hgot
    exact ⟨offer, haccepted, h.offers offer (by rw [hoffers]; exact List.mem_cons_self)⟩) h.workers
  have hoffers := s.listener.offers_step s.intake allowance
  exact ⟨hgoing, fun offer hoffer => h.offers offer (hoffers.mem hoffer), hworkers⟩

theorem Unended.stepWorker (h : s.Unended) {w : Worker} (hw : w ∈ s.intake.workers) (allowance : Nat) :
    (s.stepWorker w allowance).Unended := by
  have hmute := Worker.mute_step (h.workers w hw) s.intake.now s.intake.stopping s.intake.queue allowance
  have hworked := s.worked_stepWorker w allowance
  have hcancelled := told_worked hworked
  rw [hmute.events, Bool.or_false] at hcancelled
  refine ⟨?_, ?_, fun u hu => ?_⟩
  · rw [Listener.Told, isLeaving_congr (s.phase_stepWorker w allowance), hcancelled]
    exact h.going
  · cases hworked with
    | left v next workers queue ledger listener => rw [listener]; exact h.offers
    | ended k next workers queue ledger listener => rw [listener]; exact h.offers
  · rcases mem_workers_worked hworked hu with hnext | hold
    · exact hmute.next u hnext
    · exact h.workers u hold

theorem Unended.step (h : s.Unended) {m : Move} (hm : m ≠ .stop) : (s.step m).Unended := by
  have hconsume (queue : Queue) (records : List Record) : (s.consume queue records).Unended := by
    obtain ⟨hgoing, hoffers, hworkers⟩ := h
    constructor
    · rwa [listener_consume]
    · rwa [listener_consume]
    · rwa [workers_consume]
  cases m with
  | listener allowance => exact h.stepListener allowance
  | worker connection allowance =>
      simp only [Site.step]
      cases hw : s.intake.worker? connection with
      | none => exact h
      | some w => exact h.stepWorker (List.mem_of_find?_eq_some hw) allowance
  | leave => exact ⟨h.going, h.offers, h.workers⟩
  | stop => exact absurd rfl hm
  | elapse t => exact ⟨h.going, h.offers, h.workers⟩
  | _ => exact hconsume _ _

/-- Whatever becomes of its connections, a listener goes on until it is told to stop or its socket fails. -/
theorem going_run (o : ListenerOptions) (qo : QueueOptions) (localAddress : Option SocketAddress)
    {offers : List Offer} (hoffers : ∀ offer ∈ offers, offer.isFinal = false) {moves : List Move}
    (hmoves : .stop ∉ moves) : ¬ ((start o qo localAddress offers).run moves).listener.Told := by
  have hrun {s : Site} (h : s.Unended) : (s.run moves).Unended := by
    induction moves generalizing s with
    | nil => exact h
    | cons m moves ih =>
        obtain ⟨hm, hrest⟩ := List.ne_and_not_mem_of_not_mem_cons hmoves
        exact ih hrest (h.step hm.symm)
  have hstart : ¬ (start o qo localAddress offers).listener.Told := by
    simp [Listener.Told, Listener.isLeaving, start, Listener.start]
  exact (hrun ⟨hstart, hoffers, fun w hw => (List.not_mem_nil hw).elim⟩).going

end Site

end LogIntake
