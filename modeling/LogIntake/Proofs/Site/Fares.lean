import LogIntake.Proofs.Connection.Heading
import LogIntake.Proofs.Site.Ending
import LogIntake.Proofs.Site.Tally

/-!
# How a connection fares

As long as its pushes find room at once, a connection ends with the verdict on what comes on it (`Fares`), whatever
comes on the others.
-/

namespace LogIntake

namespace Site

/-! ## Runs that suit a connection -/

/-- The signal to shut down is given at the cutoff, and not by the connection. Until then the connection is left alone
at the time of the signal, or has been served before the signal is given. -/
def heeds (s : Site) (connection : Nat) (cutoff : Option Cutoff) (m : Move) : Bool :=
  s.intake.stopping ||
    if (s.step m).intake.stopping then
      cutoff.any (fun c => c.at_ = s.intake.now &&
        (!c.late || s.intake.workers.all fun w => w.connection != connection || w.rests s.intake)) &&
      match m with
      | .worker c _ => c != connection
      | _ => true
    else
      match m with
      | .worker c _ => c != connection || Cutoff.spares cutoff s.intake.now
      | .elapse t => cutoff.all (t.nanos ≤ ·.at_.nanos)
      | _ => true

/-- The pushes of the connection find room at once. Its worker has all of its allowance when it has waited. -/
def accommodates (s : Site) (connection : Nat) : Move → Bool
  | .worker c allowance => c != connection || (s.intake.worker? c).all fun w =>
      (w.step s.intake.now s.intake.stopping s.intake.queue allowance).findsRoom &&
        (!w.isWaiting || allowance = Execution.allowance)
  | _ => true

def suits (s : Site) (connection : Nat) (cutoff : Option Cutoff) : List Move → Bool
  | [] => true
  | m :: moves =>
    s.heeds connection cutoff m && s.accommodates connection m && (s.step m).suits connection cutoff moves

variable {s u : Site} {connection : Nat} {t : Terms} {v : Verdict} {m : Move}

/-- What a step of the listener leaves as it is. -/
theorem others_of_course {l l' : Listener} {i i' : Intake} {got : Option LogIntake.Accepted}
    (h : l.Course i got l' i') :
    (i.stopping = true → i'.stopping = true) ∧ (∀ w ∈ i'.workers, w ∈ i.workers ∨ w.connection = l.nextConnection) ∧
      l.nextConnection ≤ l'.nextConnection := by
  cases h with
  | told log phase cancelled => exact ⟨fun _ => rfl, fun _ => Or.inl, Nat.le_refl _⟩
  | breaks cause rest log phase grave => exact ⟨fun _ => rfl, fun _ => Or.inl, Nat.le_refl _⟩
  | finishes deadline failure phase ended =>
      refine ⟨id, fun _ => Or.inl, ?_⟩
      unfold Listener.finish
      split
      · exact Nat.le_refl _
      · exact Nat.le_refl _
  | serves peer steps rest phase free =>
      refine ⟨id, fun w hw => ?_, Nat.le_succ _⟩
      rcases List.mem_append.mp hw with hold | hnew
      · exact Or.inl hold
      · obtain rfl := List.mem_singleton.mp hnew
        exact Or.inr rfl
  | _ => exact ⟨id, fun _ => Or.inl, Nat.le_refl _⟩

theorem stopping_step (h : s.intake.stopping = true) (m : Move) : (s.step m).intake.stopping = true := by
  cases m with
  | listener allowance => exact (others_of_course (Listener.course_step s.listener s.intake allowance)).1 h
  | worker connection allowance =>
      simp only [step]
      cases s.intake.worker? connection with
      | none => exact h
      | some w => exact (s.clock_stepWorker w allowance).2.trans (by rw [h, Bool.true_or])
  | leave => exact h
  | stop => rfl
  | elapse t => exact h
  | _ => exact (s.stopping_consume _ _).trans h

/-! ## The invariant -/

/-- The worker of a connection has the verdict before it, or has ended with it. -/
structure Fares (s : Site) (connection : Nat) (t : Terms) (v : Verdict) : Prop where
  works : ∀ w ∈ s.intake.workers, w.connection = connection → w.Meets t s.intake.stopping s.intake.now v
  closed : ∀ k ∈ s.intake.ledger.closings, k.summary.connection = connection →
    v.at_.nanos ≤ s.intake.now.nanos ∧ v.Fits t.peer k
  known : connection < s.listener.nextConnection

/-- What a step that does not concern a connection leaves of it. -/
structure Beside (s u : Site) (connection : Nat) : Prop where
  now : u.intake.now = s.intake.now
  workers : ∀ w ∈ u.intake.workers, w.connection = connection → w ∈ s.intake.workers
  closings : ∀ k ∈ u.intake.ledger.closings, k.summary.connection = connection → k ∈ s.intake.ledger.closings
  known : s.listener.nextConnection ≤ u.listener.nextConnection

theorem beside_of_same (hnow : u.intake.now = s.intake.now) (hworkers : u.intake.workers = s.intake.workers)
    (hledger : u.intake.ledger = s.intake.ledger) (hnext : u.listener.nextConnection = s.listener.nextConnection) :
    s.Beside u connection :=
  ⟨hnow, by rw [hworkers]; exact fun _ hw _ => hw, by rw [hledger]; exact fun _ hk _ => hk, Nat.le_of_eq hnext.symm⟩

theorem beside_stepListener (hknown : connection < s.listener.nextConnection) (allowance : Nat) :
    s.Beside (s.stepListener allowance) connection := by
  have hcourse := Listener.course_step s.listener s.intake allowance
  obtain ⟨-, hworkers, hnext⟩ := others_of_course hcourse
  refine ⟨now_course hcourse, fun w hw hconnection => (hworkers w hw).resolve_right (by omega), fun k hk _ => ?_,
    hnext⟩
  rw [← closings_course hcourse]
  exact hk

theorem beside_stepWorker {w : Worker} (hother : w.connection ≠ connection) (allowance : Nat) :
    s.Beside (s.stepWorker w allowance) connection := by
  have hbalanced := w.balanced_step s.intake.now s.intake.stopping s.intake.queue allowance
  have hworked := s.worked_stepWorker w allowance
  have hobserved := (s.observed_observed w allowance).closings
  refine ⟨(s.clock_stepWorker w allowance).1, fun u hu hconnection => ?_, fun k hk hconnection => ?_, ?_⟩
  · rcases mem_workers_worked hworked hu with hnext | hold
    · exact absurd ((hbalanced.going u hnext).1.symm.trans hconnection) hother
    · exact hold
  · cases hworked with
    | left v next workers queue ledger listener => rwa [ledger, hobserved] at hk
    | ended k' next workers queue ledger listener =>
        rw [ledger] at hk
        rcases List.mem_append.mp hk with hold | hnew
        · rwa [hobserved] at hold
        · obtain rfl := List.mem_singleton.mp hnew
          have hclosed := (hbalanced.ended k (by rw [next]; rfl)).1
          exact absurd (hclosed.symm.trans hconnection) hother
  · cases hworked with
    | left v next workers queue ledger listener => rw [listener]
    | ended k next workers queue ledger listener => rw [listener]

theorem beside_step (hknown : connection < s.listener.nextConnection)
    (hworker : ∀ allowance, m ≠ .worker connection allowance) (helapse : ∀ t, m ≠ .elapse t) :
    s.Beside (s.step m) connection := by
  have hconsume (queue : Queue) (records : List Record) : s.Beside (s.consume queue records) connection :=
    beside_of_same (s.now_consume ..) (s.workers_consume ..) (s.ledger_consume ..) (by rw [listener_consume])
  cases m with
  | listener allowance => exact beside_stepListener hknown allowance
  | worker c allowance =>
      simp only [step]
      cases hw : s.intake.worker? c with
      | none => exact beside_of_same rfl rfl rfl rfl
      | some w =>
          have hconnection : w.connection = c := by simpa using List.find?_some hw
          exact beside_stepWorker (fun hsame => hworker allowance (by rw [← hconnection, hsame])) allowance
  | leave => exact beside_of_same rfl rfl rfl rfl
  | stop => exact beside_of_same rfl rfl rfl rfl
  | elapse t => exact absurd rfl (helapse t)
  | _ => exact hconsume _ _

/-! ## What keeps it -/

/-- The signal is given when the verdict reckons with it. -/
def Calls (s : Site) (connection : Nat) (cutoff : Option Cutoff) : Prop :=
  ∃ late, cutoff = some ⟨s.intake.now, late⟩ ∧
    (late = true → ∀ w ∈ s.intake.workers, w.connection = connection → w.rests s.intake = true)

theorem Fares.beside (h : s.Fares connection t v) (hbeside : s.Beside u connection)
    (htimeout : 0 < t.options.readTimeout.nanos)
    (hsignal : u.intake.stopping = s.intake.stopping ∨
      s.intake.stopping = false ∧ u.intake.stopping = true ∧ s.Calls connection t.cutoff) :
    u.Fares connection t v := by
  obtain ⟨hnow, hworkers, hclosings, hknown⟩ := hbeside
  refine ⟨fun w hw hconnection => ?_, fun k hk hconnection => ?_, Nat.lt_of_lt_of_le h.known hknown⟩
  · have hmeets := h.works w (hworkers w hw hconnection) hconnection
    rw [hnow]
    rcases hsignal with hsame | ⟨hquiet, htold, late, hcutoff, hlate⟩
    · rwa [hsame]
    · rw [htold]
      rw [hquiet] at hmeets
      refine Worker.Heads.halts hmeets hcutoff fun hspares => ?_
      have hrests := hlate hspares w (hworkers w hw hconnection) hconnection
      rw [Worker.rests, hquiet, decide_eq_true_iff] at hrests
      refine Worker.Heads.idles hmeets ?_ htimeout hrests
      simp [Cutoff.spares, hcutoff, hspares]
  · rw [hnow]
    exact h.closed k (hclosings k hk hconnection) hconnection

theorem Fares.stepWorker (h : s.Fares connection t v) {w : Worker} (hw : w ∈ s.intake.workers)
    (hconnection : w.connection = connection) (htimeout : 0 < t.options.readTimeout.nanos) {allowance : Nat}
    (hquiet : (s.stepWorker w allowance).intake.stopping = s.intake.stopping)
    (hspares : s.intake.stopping = false → Cutoff.spares t.cutoff s.intake.now = true)
    (hroom : (w.step s.intake.now s.intake.stopping s.intake.queue allowance).findsRoom = true)
    (hwhole : w.isWaiting = true → allowance = Execution.allowance) :
    (s.stepWorker w allowance).Fares connection t v := by
  have hworked := s.worked_stepWorker w allowance
  have hobserved := (s.observed_observed w allowance).closings
  obtain ⟨hnow, -⟩ := s.clock_stepWorker w allowance
  obtain ⟨hleft, hended⟩ := (h.works w hw hconnection).step hspares htimeout
    (fun deadline hphase => hwhole (by simp [Worker.isWaiting, hphase])) hroom
  have hclosed (k : Closing) (hk : k ∈ s.intake.ledger.closings) (hk' : k.summary.connection = connection) :
      v.at_.nanos ≤ s.intake.now.nanos ∧ v.Fits t.peer k := h.closed k hk hk'
  generalize s.stepWorker w allowance = u at *
  cases hworked with
  | left w' next workers queue ledger listener =>
      refine ⟨fun x hx hx' => ?_, fun k hk hk' => ?_, by rw [listener]; exact h.known⟩
      · rw [hquiet, hnow]
        rw [workers] at hx
        rcases Intake.mem_replace hx with rfl | ⟨hold, -⟩
        · exact hleft x next
        · exact h.works x hold hx'
      · rw [ledger, hobserved] at hk
        rw [hnow]
        exact hclosed k hk hk'
  | ended k' next workers queue ledger listener =>
      refine ⟨fun x hx hx' => ?_, fun k hk hk' => ?_, by rw [listener]; exact h.known⟩
      · rw [hquiet, hnow]
        rw [workers] at hx
        exact h.works x (List.mem_filter.mp hx).1 hx'
      · rw [ledger] at hk
        rw [hnow]
        rcases List.mem_append.mp hk with hold | hnew
        · rw [hobserved] at hold
          exact hclosed k hold hk'
        · obtain rfl := List.mem_singleton.mp hnew
          obtain ⟨hat, hfits⟩ := hended k next
          exact ⟨Nat.le_of_eq (congrArg Duration.nanos hat), hfits⟩

theorem Fares.elapse (h : s.Fares connection t v) (htimeout : 0 < t.options.readTimeout.nanos) {later : Instant}
    (hallows : s.allows (.own (.elapse later)) = true)
    (hcutoff : s.intake.stopping = false → ∀ c, t.cutoff = some c → later.nanos ≤ c.at_.nanos) :
    (s.step (.elapse later)).Fares connection t v := by
  simp only [allows, rests, timers, Bool.and_eq_true, decide_eq_true_eq, List.all_append, List.all_eq_true] at hallows
  obtain ⟨⟨⟨-, hrests⟩, hle⟩, ⟨-, htimers⟩, -⟩ := hallows
  refine ⟨fun w hw hconnection => ?_, fun k hk hconnection => ?_, h.known⟩
  · have hmeets := h.works w hw hconnection
    have hwrests := hrests w hw
    rw [Worker.rests, decide_eq_true_iff] at hwrests
    show w.Meets t s.intake.stopping later v
    cases hstopping : s.intake.stopping with
    | true =>
        rw [hstopping] at hmeets hwrests
        exact absurd hwrests (Worker.Halts.not_rests hmeets _ (by decide))
    | false =>
        rw [hstopping] at hmeets hwrests
        rcases Nat.eq_or_lt_of_le hle with hsame | hlt
        · obtain rfl : later = s.intake.now := congrArg Duration.mk hsame.symm
          exact hmeets
        · have hspares : Cutoff.spares t.cutoff s.intake.now = true := by
            cases hc : t.cutoff with
            | none => rfl
            | some c =>
                have hc' := hcutoff hstopping c hc
                simp only [Cutoff.spares, Option.all_some, Bool.or_eq_true, decide_eq_true_eq]
                exact Or.inl (by omega)
          have hidles := Worker.Heads.idles hmeets hspares htimeout hwrests
          refine Worker.Heads.elapse hmeets hidles fun due hdue => ?_
          simpa using htimers due (List.mem_filterMap.mpr ⟨w, hw, hdue⟩)
  · obtain ⟨hat, hfits⟩ := h.closed k hk hconnection
    exact ⟨Nat.le_trans hat hle, hfits⟩

theorem signal_of_heeds {cutoff : Option Cutoff} (h : s.heeds connection cutoff m = true) :
    (s.step m).intake.stopping = s.intake.stopping ∨
      s.intake.stopping = false ∧ (s.step m).intake.stopping = true ∧ s.Calls connection cutoff := by
  cases hstopping : s.intake.stopping with
  | true => exact Or.inl (stopping_step hstopping m)
  | false =>
      cases htold : (s.step m).intake.stopping with
      | false => exact Or.inl rfl
      | true =>
          simp only [heeds, hstopping, htold, if_true, Bool.false_or, Bool.and_eq_true, Option.any_eq_true,
            decide_eq_true_eq, Bool.or_eq_true, Bool.not_eq_true', List.all_eq_true, bne_iff_ne] at h
          obtain ⟨⟨⟨at_, late⟩, hcutoff, rfl, hlate⟩, -⟩ := h
          refine Or.inr ⟨rfl, rfl, late, hcutoff, fun hspares w hw hconnection => ?_⟩
          rcases hlate with hlate | hrests
          · cases hlate.symm.trans hspares
          · exact (hrests w hw).resolve_left (absurd hconnection)

/-- Until the signal a connection is served only when its verdict has time for that. -/
theorem spares_of_heeds {cutoff : Option Cutoff} {allowance : Nat}
    (h : s.heeds connection cutoff (.worker connection allowance) = true) (hstopping : s.intake.stopping = false) :
    (s.step (.worker connection allowance)).intake.stopping = false ∧ Cutoff.spares cutoff s.intake.now = true := by
  simp only [heeds, hstopping, Bool.false_or] at h
  split at h
  · simp at h
  · next hquiet =>
      simp only [bne_self_eq_false, Bool.false_or] at h
      exact ⟨by simpa using hquiet, h⟩

theorem le_of_heeds {cutoff : Option Cutoff} {later : Instant} (h : s.heeds connection cutoff (.elapse later) = true)
    (hstopping : s.intake.stopping = false) : ∀ c, cutoff = some c → later.nanos ≤ c.at_.nanos := by
  rintro c rfl
  have hquiet : (s.step (.elapse later)).intake.stopping = false := hstopping
  simpa [heeds, hstopping, hquiet] using h

theorem Fares.step (h : s.Fares connection t v) (htimeout : 0 < t.options.readTimeout.nanos)
    (hallows : s.allows (.own m) = true) (hheeds : s.heeds connection t.cutoff m = true)
    (haccommodates : s.accommodates connection m = true) : (s.step m).Fares connection t v := by
  have hsignal := signal_of_heeds hheeds
  -- Apart from its own turns and the clock, a connection sees nothing of the moves but the signal.
  by_cases hworker : ∃ allowance, m = .worker connection allowance
  · obtain ⟨allowance, rfl⟩ := hworker
    cases hw : s.intake.worker? connection with
    | none =>
        have hsame : s.step (.worker connection allowance) = s := by simp [Site.step, hw]
        rwa [hsame]
    | some w =>
        have hstep : s.step (.worker connection allowance) = s.stepWorker w allowance := by simp [Site.step, hw]
        have hconnection : w.connection = connection := by simpa using List.find?_some hw
        simp only [accommodates, hw, bne_self_eq_false, Bool.false_or, Option.all_some, Bool.and_eq_true,
          Bool.or_eq_true, Bool.not_eq_true', decide_eq_true_eq] at haccommodates
        obtain ⟨hroom, hwhole⟩ := haccommodates
        have hquiet : (s.stepWorker w allowance).intake.stopping = s.intake.stopping := by
          rw [← hstep]
          refine hsignal.resolve_right fun hcalled => ?_
          obtain ⟨hquiet, htold, -⟩ := hcalled
          cases htold.symm.trans (spares_of_heeds hheeds hquiet).1
        rw [hstep]
        exact h.stepWorker (List.mem_of_find?_eq_some hw) hconnection htimeout hquiet
          (fun hstopping => (spares_of_heeds hheeds hstopping).2) hroom
          fun hwaiting => hwhole.resolve_left (by simp [hwaiting])
  · by_cases helapse : ∃ later, m = .elapse later
    · obtain ⟨later, rfl⟩ := helapse
      exact h.elapse htimeout hallows (le_of_heeds hheeds)
    · have hbeside := beside_step (m := m) h.known (fun allowance hm => hworker ⟨allowance, hm⟩)
        fun later hm => helapse ⟨later, hm⟩
      exact h.beside hbeside htimeout hsignal

theorem Fares.run (h : s.Fares connection t v) (htimeout : 0 < t.options.readTimeout.nanos) {moves : List Move}
    (htimed : s.isTimed (moves.map .own) = true) (hsuits : s.suits connection t.cutoff moves = true) :
    (s.run moves).Fares connection t v := by
  induction moves generalizing s with
  | nil => exact h
  | cons m moves ih =>
      simp only [List.map_cons, isTimed, Bool.and_eq_true] at htimed
      simp only [suits, Bool.and_eq_true] at hsuits
      exact ih (h.step htimeout htimed.1 hsuits.1.1 hsuits.1.2) htimed.2 hsuits.2

theorem suits_append (s : Site) (connection : Nat) (cutoff : Option Cutoff) (moves more : List Move) :
    s.suits connection cutoff (moves ++ more)
      = (s.suits connection cutoff moves && (s.run moves).suits connection cutoff more) := by
  induction moves generalizing s with
  | nil => rfl
  | cons m moves ih =>
      simp only [List.cons_append, suits, ih, Bool.and_assoc]
      rfl

/-! ## How it begins -/

structure Begins (s u : Site) (w : Worker) (peer : SocketAddress) (steps : List Source.Step) : Prop where
  worker : w = .start s.listener.nextConnection peer s.listener.options.worker steps
  workers : u.intake.workers = s.intake.workers ++ [w]
  closings : u.intake.ledger.closings = s.intake.ledger.closings
  now : u.intake.now = s.intake.now
  stopping : u.intake.stopping = s.intake.stopping
  known : u.listener.nextConnection = s.listener.nextConnection + 1
  conversation : { connection := w.connection, peer, sent := (Source.mk steps none).content } ∈ u.conversations

theorem begins_of_admission {allowance : Nat} {a : Listener.Admission} {w : Worker}
    (h : s.admission? (.listener allowance) = some a) (hw : w ∈ a.begun) :
    ∃ peer steps, a.accepted = .connection peer steps ∧ s.Begins (s.step (.listener allowance)) w peer steps := by
  obtain ⟨accepted, hgot, rfl⟩ := Option.map_eq_some_iff.mp h
  obtain ⟨offer, rest, hoffers, haccepted⟩ := Listener.offer_of_receives hgot
  have hcourse := Listener.course_step s.listener s.intake allowance
  rw [hgot] at hcourse
  simp only [step, stepListener] at hw ⊢
  generalize s.listener.step s.intake allowance = result at *
  obtain ⟨l, i, status⟩ := result
  simp only at hcourse hw ⊢
  cases hcourse with
  | serves peer steps rest' phase free =>
      have hnew : w = .start s.listener.nextConnection peer s.listener.options.worker steps := by
        have hone (new : Worker) : (s.intake.workers ++ [new]).drop s.intake.workers.length = [new] := List.drop_left
        exact List.mem_singleton.mp (hone _ ▸ hw)
      subst hnew
      refine ⟨peer, steps, rfl, rfl, rfl, rfl, rfl, rfl, rfl, List.mem_append_right _ ?_⟩
      obtain ⟨at_, _⟩ := offer
      subst haccepted
      simp [begun, hoffers, Listener.serve, Listener.write, Worker.start]
  | _ => exact absurd hw (by simp [Listener.reject, Listener.backOff, Listener.count, Intake.stop])

variable {o : ListenerOptions} {as : List Listener.Admission} {w : Worker} {peer : SocketAddress}
  {steps : List Source.Step}

theorem connection_lt_of_mem_roll (h : s.listener.Admits o s.intake as) {n : Nat} (hn : n ∈ s.intake.roll) :
    n < s.listener.nextConnection := by
  have hrange := List.mem_range'_1.mp (h.roll.mem_iff.mp hn)
  rw [h.nextConnection]
  omega

theorem Begins.connection_notMem_roll (h : s.Begins u w peer steps) (hadmits : s.listener.Admits o s.intake as) :
    w.connection ∉ s.intake.roll := by
  intro hold
  have hlt := connection_lt_of_mem_roll hadmits hold
  rw [h.worker] at hlt
  exact absurd hlt (Nat.lt_irrefl _)

theorem Begins.fares (h : s.Begins u w peer steps) (hadmits : s.listener.Admits o s.intake as)
    (hquiet : s.intake.stopping = false) (cutoff : Option Cutoff) :
    u.Fares w.connection ⟨o.worker, peer, cutoff⟩ (Terms.verdict ⟨o.worker, peer, cutoff⟩ steps s.intake.now) := by
  have hnew := h.connection_notMem_roll hadmits
  refine ⟨fun x hx hconnection => ?_, fun k hk hconnection => ?_, ?_⟩
  · rw [h.workers] at hx
    rcases List.mem_append.mp hx with hold | hown
    · rw [← hconnection] at hnew
      exact absurd (List.mem_append_right _ (List.mem_map_of_mem hold)) hnew
    · obtain rfl := List.mem_singleton.mp hown
      rw [h.stopping, hquiet, h.now, h.worker, hadmits.options]
      exact Worker.heads_start _ peer o.worker cutoff steps s.intake.now
  · rw [h.closings] at hk
    rw [← hconnection] at hnew
    exact absurd (List.mem_append_left _ (List.mem_map_of_mem hk)) hnew
  · rw [h.known, h.worker]
    exact Nat.lt_succ_self _

theorem Begins.carries (h : s.Begins u w peer steps) (hadmits : s.listener.Admits o s.intake as) :
    u.Carries w.connection (Source.mk steps none).content := by
  refine ⟨_, h.conversation, rfl, rfl, fun k hk hconnection => ?_⟩
  rw [h.closings] at hk
  have hnew := h.connection_notMem_roll hadmits
  rw [← hconnection] at hnew
  exact absurd (List.mem_append_left _ (List.mem_map_of_mem hk)) hnew

end Site

end LogIntake
