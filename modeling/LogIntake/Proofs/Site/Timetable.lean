import LogIntake.Proofs.Delivery
import LogIntake.Proofs.Site.Winding

/-!
# When connections come in

A listener takes what comes next as soon as it has come, unless a pause after a failure is not over yet. So the
offers alone decide when that is (`Listener.timetable`), whatever the connections bring and whatever becomes of their
workers. And no connection keeps the listener from accepting others.
-/

namespace LogIntake

/-- What there is to know of a connection before anything has come from its peer. -/
def Accepted.outline : Accepted → Accepted
  | .connection peer _ => .connection peer []
  | .failed cause => .failed cause

def Offer.outline (o : Offer) : Offer :=
  { o with accepted := o.accepted.outline }

theorem Accepted.isConnection_outline (a : Accepted) : a.outline.isConnection = a.isConnection := by
  cases a with
  | connection peer steps => rfl
  | failed cause => rfl

namespace Listener

/-- The points of time at which a listener takes what it is offered when it can take the first from `free` on. -/
def timetable (backoff : Duration) : Instant → List Offer → List Instant
  | _, [] => []
  | free, offer :: rest =>
    let t := if free.nanos ≤ offer.at_.nanos then offer.at_ else free
    t :: timetable backoff (if offer.accepted.isConnection then t else t.plus backoff) rest

theorem timetable_outline (backoff : Duration) (free : Instant) (offers : List Offer) :
    timetable backoff free (offers.map Offer.outline) = timetable backoff free offers := by
  induction offers generalizing free with
  | nil => rfl
  | cons offer rest ih =>
      rw [List.map_cons, timetable, timetable]
      simp only [Offer.outline, Accepted.isConnection_outline, ih]
      rfl

def freeAfter (backoff : Duration) (now : Instant) (accepted : Accepted) : Instant :=
  if accepted.isConnection then now else now.plus backoff

theorem timetable_cons (backoff : Duration) {free now : Instant} {offer : Offer} {accepted : Accepted}
    (haccepted : offer.accepted = accepted)
    (hnow : (if free.nanos ≤ offer.at_.nanos then offer.at_ else free) = now) (rest : List Offer) :
    timetable backoff free (offer :: rest) = now :: timetable backoff (freeAfter backoff now accepted) rest := by
  subst haccepted hnow
  rfl

/-! ## The listener keeps its timetable -/

/-- A listener that has not been told to stop is on time when it can take what comes next from `free` on. -/
structure Prompt (l : Listener) (now free : Instant) : Prop where
  cancelled : l.cancelled = false
  waits : match l.phase with
    | .starting | .accepting => free.nanos ≤ now.nanos ∧
        ∀ offer, l.offers.head? = some offer → now.nanos ≤ free.nanos ∨ now.nanos ≤ offer.at_.nanos
    | .backingOff until_ => until_ = free ∧ now.nanos ≤ free.nanos
    | .stopping _ _ | .stopped _ _ => False

variable {l : Listener} {i : Intake} {free now : Instant}

theorem prompt_start (o : ListenerOptions) (localAddress : Option SocketAddress) (offers : List Offer) :
    (start o localAddress offers).Prompt ⟨0⟩ ⟨0⟩ :=
  ⟨rfl, Nat.le_refl _, fun _ _ => Or.inl (Nat.le_refl _)⟩

theorem Prompt.isLeaving (h : l.Prompt now free) : l.isLeaving = false := by
  have hwaits := h.waits
  unfold Listener.isLeaving
  cases hphase : l.phase with
  | stopping deadline failure => simp [hphase] at hwaits
  | stopped failure report => simp [hphase] at hwaits
  | _ => rfl

/-- What a listener that is on time takes in a step has its place in the timetable. -/
def Prompt.Takes (l next : Listener) (now free : Instant) : Option Accepted → Prop
  | none => next.Prompt now free ∧ next.offers = l.offers
  | some accepted => ∃ offer rest, l.offers = offer :: rest ∧ offer.accepted = accepted ∧
      (if free.nanos ≤ offer.at_.nanos then offer.at_ else free) = now ∧
      (next.isLeaving = true ∨
        next.offers = rest ∧ next.Prompt now (freeAfter l.options.acceptBackoff now accepted))

theorem Prompt.accept (h : l.Prompt i.now free) (hphase : l.phase = .accepting) {allowance : Nat}
    (hallowance : allowance ≠ 0) :
    Takes l (l.accept i allowance).1 i.now free (l.receives i allowance) := by
  have hgoing : ¬ l.cancelled = true := by simp [h.cancelled]
  have hwaits := h.waits
  simp only [hphase] at hwaits
  rw [receives_of_accepting hphase hallowance hgoing]
  unfold Listener.accept
  cases hoffers : l.offers with
  | nil => exact ⟨h, rfl⟩
  | cons offer rest =>
      obtain ⟨at_, accepted⟩ := offer
      rw [hoffers] at hwaits
      simp only [List.head?_cons, Option.bind_some]
      by_cases hearly : i.now.nanos < at_.nanos
      · rw [if_pos hearly, if_pos hearly]
        exact ⟨h, rfl⟩
      · rw [if_neg hearly, if_neg hearly]
        have hlate : i.now.nanos ≤ free.nanos ∨ i.now.nanos ≤ at_.nanos := hwaits.2 _ rfl
        have hnow : (if free.nanos ≤ at_.nanos then at_ else free) = i.now := by
          split
          · have hsame : at_.nanos = i.now.nanos := by omega
            exact congrArg Duration.mk hsame
          · have hsame : free.nanos = i.now.nanos := by omega
            exact congrArg Duration.mk hsame
        refine ⟨⟨at_, accepted⟩, rest, hoffers, rfl, hnow, ?_⟩
        cases accepted with
        | connection peer steps =>
            refine Or.inr ?_
            simp only [dispatch]
            split
            · refine ⟨rfl, h.cancelled, ?_⟩
              simp only [reject, write, hphase]
              exact ⟨Nat.le_refl _, fun _ _ => Or.inl (Nat.le_refl _)⟩
            · refine ⟨rfl, h.cancelled, ?_⟩
              simp only [serve, write, hphase]
              exact ⟨Nat.le_refl _, fun _ _ => Or.inl (Nat.le_refl _)⟩
        | failed cause =>
            simp only
            split
            · exact Or.inl rfl
            · exact Or.inr ⟨rfl, h.cancelled, rfl, Nat.le_add_right _ _⟩

theorem Prompt.step (h : l.Prompt i.now free) (allowance : Nat) :
    Takes l (l.step i allowance).1 i.now free (l.receives i allowance) := by
  have hwaits := h.waits
  have hgoing : ¬ l.cancelled = true := by simp [h.cancelled]
  have hidle (hne : l.phase ≠ .accepting) : l.receives i allowance = none := by
    unfold receives
    split
    · next hphase _ => exact absurd hphase hne
    · rfl
  unfold Listener.step
  cases hphase : l.phase with
  | starting =>
      simp only [hphase] at hwaits
      rw [hidle (by rw [hphase]; exact Phase.noConfusion)]
      exact ⟨⟨h.cancelled, hwaits⟩, rfl⟩
  | accepting =>
      simp only [if_neg hgoing]
      split
      · next hspent =>
          have hnone : l.receives i allowance = none := by
            unfold receives
            split
            · exact if_pos (Or.inl hspent)
            · rfl
          rw [hnone]
          exact ⟨h, rfl⟩
      · next hallowance => exact h.accept hphase hallowance
  | backingOff until_ =>
      simp only [hphase] at hwaits
      rw [hidle (by rw [hphase]; exact Phase.noConfusion)]
      simp only
      split
      · exact ⟨h, rfl⟩
      · obtain ⟨rfl, hnow⟩ := hwaits
        split
        · next hover => exact ⟨⟨h.cancelled, hover, fun _ _ => Or.inl hnow⟩, rfl⟩
        · exact ⟨h, rfl⟩
  | stopping deadline failure => simp [hphase] at hwaits
  | stopped failure report => simp [hphase] at hwaits

/-- Time passes no further than to the next offer or to the end of a pause. -/
theorem Prompt.elapse (h : l.Prompt i.now free) (hrests : l.rests i = true) {later : Instant}
    (hlater : i.now.nanos ≤ later.nanos) (hnext : ∀ due, l.nextTime = some due → later.nanos ≤ due.nanos) :
    l.Prompt later free := by
  refine ⟨h.cancelled, ?_⟩
  have hwaits := h.waits
  cases hphase : l.phase with
  | starting => simp [Listener.rests, hasStopped, hphase, Listener.step] at hrests
  | accepting =>
      simp only [hphase] at hwaits ⊢
      simp only [nextTime, hphase] at hnext
      refine ⟨Nat.le_trans hwaits.1 hlater, fun offer hoffer => Or.inr (hnext _ ?_)⟩
      rw [hoffer]
      rfl
  | backingOff until_ =>
      simp only [hphase] at hwaits ⊢
      obtain ⟨rfl, -⟩ := hwaits
      exact ⟨rfl, hnext _ (by simp [nextTime, hphase])⟩
  | stopping deadline failure => simp [hphase] at hwaits
  | stopped failure report => simp [hphase] at hwaits

end Listener

namespace Site

variable {s : Site} {free : Instant} {m : Move}

/-- What moves that are not the listener's can do to what it accepts. -/
theorem offers_step (s : Site) (m : Move) :
    (∃ allowance, m = .listener allowance) ∨
      ((s.step m).listener.phase = s.listener.phase ∧ (s.step m).listener.offers = s.listener.offers ∧
        ((s.step m).listener.cancelled = true ∨ (s.step m).listener.cancelled = s.listener.cancelled ∧
          (s.step m).intake.stopping = s.intake.stopping)) := by
  cases m with
  | listener allowance => exact Or.inl ⟨allowance, rfl⟩
  | worker connection allowance =>
      refine Or.inr ?_
      simp only [step]
      cases s.intake.worker? connection with
      | none => exact ⟨rfl, rfl, Or.inr ⟨rfl, rfl⟩⟩
      | some w =>
          rw [Option.elim_some]
          have hworked := s.worked_stepWorker w allowance
          obtain ⟨-, hstopping⟩ := s.clock_stepWorker w allowance
          have hcancelled := told_worked hworked
          refine ⟨s.phase_stepWorker w allowance, ?_, ?_⟩
          · cases hworked with
            | left v next workers queue ledger listener => rw [listener]
            | ended k next workers queue ledger listener => rw [listener]
          · rw [hcancelled, hstopping]
            cases (w.step s.intake.now s.intake.stopping s.intake.queue allowance).events.contains .signalled with
            | true => exact Or.inl (Bool.or_true _)
            | false => exact Or.inr ⟨Bool.or_false _, Bool.or_false _⟩
  | leave => exact Or.inr ⟨rfl, rfl, Or.inr ⟨rfl, rfl⟩⟩
  | stop => exact Or.inr ⟨rfl, rfl, Or.inl rfl⟩
  | elapse t => exact Or.inr ⟨rfl, rfl, Or.inr ⟨rfl, rfl⟩⟩
  | _ =>
      refine Or.inr ?_
      simp only [step, listener_consume]
      exact ⟨trivial, trivial, Or.inr ⟨trivial, s.stopping_consume _ _⟩⟩

/-! ## After the signal -/

theorem told_step (h : s.listener.Told) (m : Move) : (s.step m).listener.Told ∧ s.admission? m = none := by
  rcases s.offers_step m with ⟨allowance, rfl⟩ | ⟨hphase, -, hcancelled⟩
  · have hcourse := Listener.course_step s.listener s.intake allowance
    rw [h.receives] at hcourse
    exact ⟨(h.course hcourse).told, by rw [admission?, h.receives, Option.map_none]⟩
  · have hnone : s.admission? m = none := by
      cases m with
      | listener allowance => rw [admission?, h.receives, Option.map_none]
      | _ => rfl
    refine ⟨?_, hnone⟩
    rcases h with h | h
    · rcases hcancelled with hcancelled | ⟨hcancelled, -⟩
      · exact Or.inl hcancelled
      · exact Or.inl (hcancelled.trans h)
    · exact Or.inr ((isLeaving_congr hphase).trans h)

theorem admissions_of_told (h : s.listener.Told) (moves : List Move) : s.admissions moves = [] := by
  induction moves generalizing s with
  | nil => rfl
  | cons m moves ih =>
      obtain ⟨htold, hnone⟩ := told_step h m
      rw [admissions, hnone, ih htold]
      rfl

/-! ## Before the signal -/

structure Prompt (s : Site) (free : Instant) : Prop where
  listener : s.listener.Prompt s.intake.now free
  quiet : s.intake.stopping = false

/-- What a listener that is on time takes in a move has its place in the timetable. -/
def Takes (s t : Site) (free : Instant) : Option LogIntake.Accepted → Prop
  | none => t.listener.Told ∨ t.Prompt free ∧ t.listener.offers = s.listener.offers
  | some accepted => ∃ offer rest, s.listener.offers = offer :: rest ∧ offer.accepted = accepted ∧
      (if free.nanos ≤ offer.at_.nanos then offer.at_ else free) = s.intake.now ∧
      (t.listener.Told ∨ t.listener.offers = rest ∧
        t.Prompt (Listener.freeAfter s.listener.options.acceptBackoff s.intake.now accepted))

theorem stopping_of_course {l l' : Listener} {i i' : Intake} {got : Option LogIntake.Accepted}
    (h : l.Course i got l' i') (hquiet : i.stopping = false) (hgoing : l'.isLeaving = false) :
    i'.now = i.now ∧ i'.stopping = false := by
  cases h with
  | told log phase cancelled => cases hgoing
  | breaks cause rest log phase grave => cases hgoing
  | _ => exact ⟨rfl, hquiet⟩

theorem Prompt.stepListener (h : s.Prompt free) (allowance : Nat) :
    Takes s (s.step (.listener allowance)) free (s.listener.receives s.intake allowance) := by
  have htakes := h.listener.step allowance
  have hquiet := stopping_of_course (Listener.course_step s.listener s.intake allowance) h.quiet
  have hprompt {free' : Instant} (hnext : (s.listener.step s.intake allowance).1.Prompt s.intake.now free') :
      (s.step (.listener allowance)).Prompt free' := by
    obtain ⟨hnow, hstopping⟩ := hquiet hnext.isLeaving
    refine ⟨?_, hstopping⟩
    show Listener.Prompt _ (s.listener.step s.intake allowance).2.1.now free'
    rw [hnow]
    exact hnext
  cases hgot : s.listener.receives s.intake allowance with
  | none =>
      rw [hgot] at htakes
      exact Or.inr ⟨hprompt htakes.1, htakes.2⟩
  | some accepted =>
      rw [hgot] at htakes
      obtain ⟨offer, rest, hoffers, haccepted, hnow, hleaving | ⟨hrest, hnext⟩⟩ := htakes
      · exact ⟨offer, rest, hoffers, haccepted, hnow, Or.inl (Or.inr hleaving)⟩
      · exact ⟨offer, rest, hoffers, haccepted, hnow, Or.inr ⟨hrest, hprompt hnext⟩⟩

theorem now_course {l l' : Listener} {i i' : Intake} {got : Option LogIntake.Accepted} (h : l.Course i got l' i') :
    i'.now = i.now := by
  cases h with
  | _ => rfl

theorem now_step (s : Site) (m : Move) : (∃ t, m = .elapse t) ∨ (s.step m).intake.now = s.intake.now := by
  cases m with
  | elapse t => exact Or.inl ⟨t, rfl⟩
  | listener allowance => exact Or.inr (now_course (Listener.course_step s.listener s.intake allowance))
  | worker connection allowance =>
      refine Or.inr ?_
      simp only [step]
      cases s.intake.worker? connection with
      | none => rfl
      | some w => exact (s.clock_stepWorker w allowance).1
  | leave => exact Or.inr rfl
  | stop => exact Or.inr rfl
  | _ => exact Or.inr (s.now_consume _ _)

theorem Prompt.aside (h : s.Prompt free) (hallows : s.allows (.own m) = true)
    (hm : ¬ ∃ allowance, m = .listener allowance) :
    (s.step m).listener.Told ∨ (s.step m).Prompt free ∧ (s.step m).listener.offers = s.listener.offers := by
  obtain ⟨hphase, hoffers, hcancelled | ⟨hcancelled, hstopping⟩⟩ := (s.offers_step m).resolve_left hm
  · exact Or.inl (Or.inl hcancelled)
  · have hlistener : s.listener.Prompt (s.step m).intake.now free := by
      rcases s.now_step m with ⟨t, rfl⟩ | hnow
      · simp only [allows, rests, timers, Bool.and_eq_true, decide_eq_true_eq, List.all_append] at hallows
        obtain ⟨⟨⟨hrests, -⟩, hle⟩, ⟨hnext, -⟩, -⟩ := hallows
        refine h.listener.elapse hrests hle fun due hdue => ?_
        rw [hdue] at hnext
        have hdue : t.nanos ≤ due.nanos := by simpa using hnext
        exact hdue
      · rw [hnow]
        exact h.listener
    refine Or.inr ⟨⟨⟨hcancelled.trans hlistener.cancelled, ?_⟩, hstopping.trans h.quiet⟩, hoffers⟩
    rw [hphase, hoffers]
    exact hlistener.waits

theorem Prompt.step (h : s.Prompt free) (hallows : s.allows (.own m) = true) :
    Takes s (s.step m) free ((s.admission? m).map (·.accepted)) := by
  cases m with
  | listener allowance =>
      have hgot : (s.admission? (.listener allowance)).map (·.accepted) = s.listener.receives s.intake allowance := by
        rw [admission?, Option.map_map]
        exact Option.map_id'
      rw [hgot]
      exact h.stepListener allowance
  | _ => exact h.aside hallows (by simp)

/-! ## Admissions -/

/-- The move with which an offer is taken, and what it takes. -/
structure Admitted (s : Site) (moves : List Move) (k : Nat) (a : Listener.Admission) (before : List Move)
    (allowance : Nat) (after : List Move) : Prop where
  moves : moves = before ++ .listener allowance :: after
  admission : (s.run before).admission? (.listener allowance) = some a
  offer : (s.listener.offers[k]?).map (·.accepted) = some a.accepted
  quiet : (s.run before).intake.stopping = false

/-- Each offer that is taken is taken when the timetable says. -/
theorem Prompt.exists_admission (h : s.Prompt free) {moves : List Move}
    (htimed : s.isTimed (moves.map .own) = true) {k : Nat} {a : Listener.Admission}
    (ha : (s.admissions moves)[k]? = some a) :
    ∃ before allowance after, s.Admitted moves k a before allowance after ∧
      (Listener.timetable s.listener.options.acceptBackoff free s.listener.offers)[k]?
        = some (s.run before).intake.now := by
  -- With each offer that is taken, `k` goes down by one and `free` goes on to the next time.
  induction moves generalizing s free k with
  | nil => cases ha
  | cons m moves ih =>
      simp only [List.map_cons, isTimed, Bool.and_eq_true] at htimed
      have htakes := h.step htimed.1
      have hlater {k' : Nat} {free' : Instant} (hprompt : (s.step m).Prompt free')
          (hrest : ((s.step m).admissions moves)[k']? = some a) := ih hprompt htimed.2 hrest
      rw [admissions] at ha
      cases hadmission : s.admission? m with
      | none =>
          rw [hadmission] at htakes ha
          rcases htakes with htold | ⟨hprompt, hoffers⟩
          · rw [admissions_of_told htold] at ha
            cases ha
          · obtain ⟨before, allowance, after, hfound, htime⟩ := hlater hprompt ha
            obtain ⟨hmoves, hadmitted, hoffer, hquiet⟩ := hfound
            rw [hoffers] at hoffer htime
            rw [options_step] at htime
            exact ⟨m :: before, allowance, after, ⟨by rw [hmoves]; rfl, hadmitted, hoffer, hquiet⟩, htime⟩
      | some b =>
          obtain ⟨allowance, rfl⟩ : ∃ allowance, m = .listener allowance := by
            cases m with
            | listener allowance => exact ⟨allowance, rfl⟩
            | _ => cases hadmission
          rw [hadmission] at htakes ha
          obtain ⟨offer, rest, hoffers, haccepted, hnow, hnext⟩ := htakes
          rw [hoffers, Listener.timetable_cons _ haccepted hnow]
          cases k with
          | zero =>
              obtain rfl := Option.some.inj ha
              have hoffer : (s.listener.offers[0]?).map (·.accepted) = some b.accepted := by
                rw [hoffers]
                exact congrArg some haccepted
              exact ⟨[], allowance, moves, ⟨rfl, hadmission, hoffer, h.quiet⟩, rfl⟩
          | succ k =>
              rcases hnext with htold | ⟨hrest, hprompt⟩
              · rw [Option.toList_some, List.singleton_append, List.getElem?_cons_succ,
                  admissions_of_told htold] at ha
                cases ha
              · obtain ⟨before, more, after, hfound, htime⟩ := hlater hprompt ha
                obtain ⟨hmoves, hadmitted, hoffer, hquiet⟩ := hfound
                rw [hrest] at hoffer htime
                rw [options_step] at htime
                exact ⟨.listener allowance :: before, more, after,
                  ⟨by rw [hmoves]; rfl, hadmitted, by rw [hoffers]; exact hoffer, hquiet⟩, htime⟩

end Site

end LogIntake
