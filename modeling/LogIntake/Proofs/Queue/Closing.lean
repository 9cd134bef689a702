import LogIntake.Proofs.Queue.Discipline

/-!
# Closing a queue

Nothing comes into a closed queue: pushes that wait fail when they are polled, and later ones fail as they begin
(`Event.Late`). What it holds can still be taken out. After that, and once the pushes to which places had been granted
have been told, nobody who asks for a record has to wait (`CutOff`). Until then these places are not free, and a
consumer that finds nothing has to wait for them. In a queue that has not been closed, a consumer learns that no record
will come only when there is no producer left.
-/

namespace LogIntake.Queue

variable {q : Queue} {now : Instant} {n : Nat}

/-! ## The consumer -/

theorem recv_of_nil (h : q.buffered = []) : q.recv = (q, if q.isFinished then .ready none else .pending) := by
  rw [recv, h]
  rfl

theorem recvBatch_of_nil (h : q.buffered = []) (hn : n ≠ 0) :
    q.recvBatch n = (q, if q.isFinished then .ready [] else .pending) := by
  rw [recvBatch, if_neg (by simpa using hn), h]
  rfl

theorem none_of_isFinished (hnil : q.buffered = []) (h : q.isFinished = true) :
    q.recv = (q, .ready none) ∧ ∀ n ≠ 0, q.recvBatch n = (q, .ready []) := by
  refine ⟨?_, fun n hn => ?_⟩
  · rw [recv_of_nil hnil, h]
    rfl
  · rw [recvBatch_of_nil hnil hn, h]
    rfl

theorem pending_of_not_isFinished (hnil : q.buffered = []) (h : q.isFinished = false) :
    q.recv = (q, .pending) ∧ ∀ n ≠ 0, q.recvBatch n = (q, .pending) := by
  refine ⟨?_, fun n hn => ?_⟩
  · rw [recv_of_nil hnil, h]
    rfl
  · rw [recvBatch_of_nil hnil hn, h]
    rfl

theorem recv_of_ne_nil (h : q.buffered ≠ []) : q.recv.2 = .ready q.buffered.head? := by
  rw [recv, if_neg (by simpa using h)]
  cases hbuffered : q.buffered with
  | nil => exact absurd hbuffered h
  | cons r rest => simp [tryRecv, drain, hbuffered]

theorem recvBatch_of_ne_nil (h : q.buffered ≠ []) (hn : n ≠ 0) :
    (q.recvBatch n).2 = .ready (q.buffered.take n) := by
  rw [recvBatch, if_neg (by simpa using hn), if_neg (by simpa using h)]
  rfl

theorem recv_none_iff (q : Queue) : q.recv.2 = .ready none ↔ q.isFinished = true ∧ q.buffered = [] := by
  by_cases hnil : q.buffered = []
  · rw [recv_of_nil hnil]
    cases q.isFinished with
    | true => exact iff_of_true rfl ⟨rfl, hnil⟩
    | false => exact iff_of_false nofun nofun
  · rw [recv_of_ne_nil hnil]
    refine iff_of_false (fun hnone => hnil ?_) fun h => hnil h.2
    exact List.head?_eq_none_iff.mp (Poll.ready.inj hnone)

/-! ## Places that are given back late -/

/-- The pushes that have places which they have not taken, by ticket. -/
def placed (q : Queue) : List Nat :=
  q.outstanding ++ q.granted.map Waiter.ticket

/-- Only pushes that return give their places back, and no other places are to be given back. -/
structure GivesBack (q q' : Queue) (es : List Event) : Prop where
  old : ∀ n ∈ q'.outstanding, n ∈ q.outstanding
  told : ∀ n ∈ q.outstanding, n ∈ q'.outstanding ∨ ∃ result, .returns n result ∈ es

theorem givesBack_of_eq {q' : Queue} {es : List Event} (h : q'.outstanding = q.outstanding) : q.GivesBack q' es :=
  ⟨fun _ hn => h ▸ hn, fun _ hn => Or.inl (h ▸ hn)⟩

/-! ## What may still happen -/

/-- What happens to a queue that has been closed: pushes fail, and places that become free go to nobody. -/
inductive Event.Late : Event → Prop
  | ends : Late (.ends (.failed .closed))
  | returns (ticket : Nat) : Late (.returns ticket (.failed .closed))
  | frees : Late (.frees none)

/-- The queue takes nothing in any more, and who has waited is told so. -/
structure Barred (q : Queue) : Prop extends q.Shut where
  failed : ∀ p ∈ q.failed, p.2 = .closed

theorem Barred.granted (h : q.Barred) : q.granted = [] :=
  (List.append_eq_nil_iff.mp h.pending).1

theorem Barred.waiting (h : q.Barred) : q.waiting = [] :=
  (List.append_eq_nil_iff.mp h.pending).2

theorem Barred.resume (h : q.Barred) {ticket : Nat} {result : PushResult}
    (hresult : (q.resume ticket).2 = some result) : result = .failed .closed := by
  rw [Queue.resume, h.granted] at hresult
  simp only [List.find?_nil] at hresult
  split at hresult
  · next e hlookup =>
      obtain rfl := Option.some.inj hresult
      obtain ⟨before, after, hfailed, -⟩ := List.lookup_eq_some_iff.mp hlookup
      have hmem : (ticket, e) ∈ q.failed := by
        rw [hfailed]
        exact List.mem_append_right _ List.mem_cons_self
      rw [show e = .closed from h.failed (ticket, e) hmem]
  · cases hresult

theorem Barred.poll_eq (h : q.Barred) (now : Instant) (ticket : Nat) : q.poll now ticket = q.resume ticket := by
  have hnobody : ∀ w ∈ q.waiting, (w.ticket == ticket && w.isDue now) = false := by
    rw [h.waiting]
    exact nofun
  rw [poll, giveUp_of_forall hnobody]

/-- A push that has waited for a place in vain is told so when it is polled. -/
theorem Barred.poll_of_mem (h : q.Barred) (now : Instant) {ticket : Nat} (hmem : ticket ∈ q.tickets) :
    (q.poll now ticket).2 = some (.failed .closed) := by
  have hresumable : ticket ∈ q.resumable := by
    rw [tickets, h.pending] at hmem
    exact List.mem_append_right _ hmem
  obtain ⟨q', result, hresume⟩ := Watch.exists_resume hresumable
  rw [h.poll_eq, hresume, h.resume (congrArg Prod.snd hresume)]

theorem Barred.late_returns (h : q.Barred) (ticket : Nat) :
    ∀ e ∈ ((q.resume ticket).2.map (Event.returns ticket)).toList, e.Late := by
  intro e he
  obtain ⟨result, hresult, rfl⟩ := Option.map_eq_some_iff.mp (Option.mem_toList.mp he)
  rw [h.resume hresult]
  exact .returns ticket

theorem Barred.late_events (h : q.Barred) (op : Operation) : ∀ e ∈ q.events op, e.Late := by
  -- Places become free for nobody.
  have hfreed : ∀ e ∈ q.freed (q.apply op) (q.given op).length, e.Late := by
    intro e he
    obtain ⟨taken, hflow⟩ := q.flow_apply op
    have hgained : q.gained (q.apply op) = [] := by
      have hgranted := (List.append_eq_nil_iff.mp (hflow.shut h.toShut).1.pending).1
      rw [gained, hgranted, List.drop_nil, List.map_nil]
    rw [freed, hgained] at he
    obtain ⟨taker, htaker, rfl⟩ := List.mem_map.mp he
    rw [List.map_nil, List.nil_append] at htaker
    rw [List.eq_of_mem_replicate htaker]
    exact .frees
  cases op with
  | push t r =>
      intro e he
      rw [List.mem_singleton.mp he, push_of_closed h.closed t r]
      exact .ends
  | resume ticket => exact h.late_returns ticket
  | _ => exact hfreed

theorem Barred.givesBack_resume (h : q.Barred) (ticket : Nat) :
    q.GivesBack (q.resume ticket).1 ((q.resume ticket).2.map (Event.returns ticket)).toList := by
  unfold Queue.resume
  rw [h.granted]
  simp only [List.find?_nil]
  split
  · next e _ =>
      refine ⟨fun n hn => ?_, fun n hn => ?_⟩
      · rw [(keepsPlaces_report ..).outstanding] at hn
        exact (List.mem_filter.mp hn).1
      · by_cases hsame : n = ticket
        · exact Or.inr ⟨.failed e, by rw [hsame]; exact List.mem_singleton_self _⟩
        · refine Or.inl ?_
          rw [(keepsPlaces_report ..).outstanding]
          exact List.mem_filter.mpr ⟨hn, bne_iff_ne.mpr hsame⟩
  · exact givesBack_of_eq rfl

theorem Barred.outstanding_close (h : q.Barred) : q.close.outstanding = q.outstanding := by
  rw [close, h.granted]
  exact List.append_nil _

theorem Barred.givesBack_apply (h : q.Barred) (op : Operation) : q.GivesBack (q.apply op) (q.events op) := by
  cases op with
  | push t r => exact givesBack_of_eq (q.keepsPlaces_push t r).outstanding
  | resume ticket => exact h.givesBack_resume ticket
  | expire t => exact givesBack_of_eq rfl
  | addProducer => exact givesBack_of_eq rfl
  | dropProducer => exact givesBack_of_eq rfl
  | tryRecv => exact givesBack_of_eq (q.keepsPlaces_drain 1).outstanding
  | recv => exact givesBack_of_eq q.keepsPlaces_recv.outstanding
  | drain n => exact givesBack_of_eq (q.keepsPlaces_drain n).outstanding
  | recvBatch n => exact givesBack_of_eq (q.keepsPlaces_recvBatch n).outstanding
  | close => exact givesBack_of_eq h.outstanding_close

namespace Watch

variable {o : QueueOptions} {s : Watch} {m : Move} {ms : List Move}

/-! ## After the queue has been closed -/

theorem Watched.barred (h : s.Watched o) (hclosed : s.queue.closed = true) : s.queue.Barred :=
  ⟨⟨hclosed, h.allotted.shut hclosed⟩, fun p hp => (h.logged.failed p.1 p.2 hp).1⟩

/-- From a point of time on, a closed queue has only given out what it held, and got back the places of pushes that
have returned. -/
structure Ebbed (s s' : Watch) (handed : List Record) : Prop where
  closed : s'.queue.closed = true
  later : ∃ later, s'.log = s.log ++ later ∧ ∀ entry ∈ later, entry.2.Late
  within : handed ++ s'.queue.buffered <+: s.queue.buffered
  old : ∀ n ∈ s'.queue.outstanding, n ∈ s.queue.outstanding
  told : ∀ n ∈ s.queue.outstanding, n ∈ s'.queue.outstanding ∨ ∃ t result, (t, .returns n result) ∈ s'.log

theorem Ebbed.refl (hclosed : s.queue.closed = true) : s.Ebbed s [] :=
  ⟨hclosed, ⟨[], (List.append_nil _).symm, nofun⟩, List.prefix_refl _, fun _ => id, fun _ => Or.inl⟩

theorem Ebbed.trans {s' s'' : Watch} {given handed : List Record} (h : s.Ebbed s' given) (h' : s'.Ebbed s'' handed) :
    s.Ebbed s'' (given ++ handed) := by
  obtain ⟨later, hlog, hlate⟩ := h.later
  obtain ⟨later', hlog', hlate'⟩ := h'.later
  refine ⟨h'.closed, ⟨later ++ later', ?_, fun entry hentry => ?_⟩, ?_, fun n hn => h.old n (h'.old n hn),
    fun n hn => ?_⟩
  · rw [hlog', hlog, List.append_assoc]
  · exact (List.mem_append.mp hentry).elim (hlate entry) (hlate' entry)
  · rw [List.append_assoc]
    exact ((List.prefix_append_right_inj given).mpr h'.within).trans h.within
  · rcases h.told n hn with hkept | ⟨t, result, hreturned⟩
    · exact h'.told n hkept
    · refine Or.inr ⟨t, result, ?_⟩
      rw [hlog']
      exact List.mem_append_left _ hreturned

/-- A move of a closed queue in which only these events have happened. -/
theorem ebbed_of_flow {queue : Queue} {taken given : List Record} {es : List Event} (hbarred : s.queue.Barred)
    (hflow : s.queue.Flow queue taken given) (hlate : ∀ e ∈ es, e.Late) (hback : s.queue.GivesBack queue es) :
    s.Ebbed { s with queue, log := s.log ++ es.map (s.now, ·) } given ∧ given ++ queue.buffered = s.queue.buffered := by
  obtain ⟨hshut, htaken⟩ := hflow.shut hbarred.toShut
  have hrecords := hflow.records
  rw [htaken, List.append_nil] at hrecords
  refine ⟨⟨hshut.closed, ⟨_, rfl, fun entry hentry => ?_⟩, ?_, hback.old, fun n hn => ?_⟩, hrecords.symm⟩
  · obtain ⟨e, he, rfl⟩ := List.mem_map.mp hentry
    exact hlate e he
  · exact hrecords ▸ List.prefix_refl _
  · refine (hback.told n hn).imp_right fun ⟨result, hreturns⟩ => ⟨s.now, result, ?_⟩
    exact List.mem_append_right _ (List.mem_map_of_mem hreturns)

theorem Watched.ebbed_step (h : s.Watched o) (hclosed : s.queue.closed = true) (m : Move) :
    s.Ebbed (s.step m) (s.given m) ∧
      (m ≠ .abandon → s.given m ++ (s.step m).queue.buffered = s.queue.buffered) := by
  have hbarred := h.barred hclosed
  unfold Watch.step
  split
  · cases m with
    | act op =>
        obtain ⟨taken, hflow⟩ := s.queue.flow_apply op
        have hebbed := ebbed_of_flow hbarred hflow (hbarred.late_events op) (hbarred.givesBack_apply op)
        exact hebbed.imp_right fun hrecords _ => hrecords
    | poll ticket =>
        obtain ⟨taken, hflow⟩ := s.queue.flow_apply (.resume ticket)
        have hebbed := ebbed_of_flow hbarred hflow (hbarred.late_returns ticket) (hbarred.givesBack_resume ticket)
        rw [happen, hbarred.poll_eq]
        exact hebbed.imp_right fun hrecords _ => hrecords
    | elapse t =>
        exact ⟨⟨hclosed, ⟨[], (List.append_nil _).symm, nofun⟩, List.prefix_refl _, fun _ => id, fun _ => Or.inl⟩,
          fun _ => rfl⟩
    | abandon =>
        have hsame : s.queue.abandon.outstanding = s.queue.outstanding := hbarred.outstanding_close
        exact ⟨⟨rfl, ⟨[], (List.append_nil _).symm, nofun⟩, List.nil_prefix, fun _ hn => hsame ▸ hn,
          fun _ hn => Or.inl (hsame ▸ hn)⟩, fun hne => absurd rfl hne⟩
  · next hnot =>
      rw [given_of_not_allows (Bool.eq_false_iff.mpr hnot)]
      exact ⟨.refl hclosed, fun _ => rfl⟩

theorem Watched.ebbed_run (h : s.Watched o) (hclosed : s.queue.closed = true) (ms : List Move) :
    s.Ebbed (s.run ms) (s.handed ms) ∧
      (.abandon ∉ ms → s.handed ms ++ (s.run ms).queue.buffered = s.queue.buffered) := by
  induction ms generalizing s with
  | nil => exact ⟨.refl hclosed, fun _ => rfl⟩
  | cons m ms ih =>
      obtain ⟨hstep, hgiven⟩ := h.ebbed_step hclosed m
      obtain ⟨hrun, hhanded⟩ := ih (h.step m) hstep.closed
      refine ⟨hstep.trans hrun, fun hstays => ?_⟩
      rw [List.mem_cons, not_or] at hstays
      rw [handed_cons, List.append_assoc, run_cons, hhanded hstays.2]
      exact hgiven (Ne.symm hstays.1)

/-- The queue is closed, and then used like this. -/
def close (s : Watch) (more : List Move) : Watch :=
  s.run (.act .close :: more)

/-- What comes of closing a queue, however it is used after that. -/
structure CutOff (s : Watch) (more : List Move) : Prop where
  /-- No push that begins later gets in or waits. -/
  refuses : ∀ r, ((s.close more).queue.push (s.close more).now r).2 = .done (.failed .closed)
  later : ∃ later, (s.close more).log = s.log ++ later ∧ ∀ entry ∈ later, entry.2.Late
  /-- A push that waits is told so when it is polled. -/
  waiting : ∀ n, s.Waits n → (∃ t, (t, .returns n (.failed .closed)) ∈ (s.close more).log) ∨
    ((s.close more).Waits n ∧ ((s.close more).queue.poll (s.close more).now n).2 = some (.failed .closed))
  /-- Time does not pass before each of them has been polled. -/
  rested : (s.close more).rests = true → ∀ n, ¬ (s.close more).Waits n
  /-- They can all be polled at once. -/
  returns : ∃ ns : List Nat, ∀ n, ¬ (s.close (more ++ ns.map .poll)).Waits n
  /-- The consumer gets what the queue held, in order, unless it goes away. -/
  records : .abandon ∉ more →
    s.handed (.act .close :: more) ++ (s.close more).queue.buffered = s.queue.buffered
  held : (s.close more).queue.buffered ≠ [] →
    (s.close more).queue.recv.2 = .ready (s.close more).queue.buffered.head? ∧
      ∀ n ≠ 0, ((s.close more).queue.recvBatch n).2 = .ready ((s.close more).queue.buffered.take n)
  /-- Once those that had places have been told, nobody who asks for a record has to wait any more. -/
  finished : (s.close more).queue.buffered = [] → (∀ n ∈ s.queue.placed, ¬ (s.close more).Waits n) → ∀ rest,
    let q := (s.close (more ++ rest)).queue
    q.recv = (q, .ready none) ∧ ∀ n ≠ 0, q.recvBatch n = (q, .ready [])
  /-- Until then a consumer has to wait for them, if there are producers left. -/
  blocked : (s.close more).queue.buffered = [] → (s.close more).queue.producers ≠ 0 →
    ∀ n ∈ s.queue.placed, (s.close more).Waits n → let q := (s.close more).queue
    q.recv = (q, .pending) ∧ ∀ n ≠ 0, q.recvBatch n = (q, .pending)

theorem waits_or_returned (hn : n ∈ begun s.log) : s.Waits n ∨ ∃ t result, (t, .returns n result) ∈ s.log := by
  by_cases hreturned : ∃ t result, (t, .returns n result) ∈ s.log
  · exact Or.inr hreturned
  · exact Or.inl ⟨hn, fun t result hmem => hreturned ⟨t, result, hmem⟩⟩

theorem log_step_close (s : Watch) : (s.step (.act .close)).log = s.log := by
  show s.log ++ (s.queue.freed s.queue.close 0).map (s.now, ·) = s.log
  simp [freed, gained, Queue.close]

theorem close_append (s : Watch) (more rest : List Move) : s.close (more ++ rest) = (s.close more).run rest :=
  run_append ..

theorem Watched.run_close (h : s.Watched o) (more : List Move) : (s.close more).Watched o :=
  h.run (.act .close :: more)

theorem Watched.ebbed_close (h : s.Watched o) (more : List Move) :
    (s.step (.act .close)).Ebbed (s.close more) ((s.step (.act .close)).handed more) :=
  ((h.step (.act .close)).ebbed_run rfl more).1

/-- A push that had a place keeps it until it returns. -/
theorem Watched.mem_outstanding_close_iff (h : s.Watched o) (more : List Move) :
    n ∈ (s.close more).queue.outstanding ↔ n ∈ s.queue.placed ∧ (s.close more).Waits n := by
  have hwatched := h.run_close more
  have hebbed := h.ebbed_close more
  constructor
  · intro hn
    have hfailed := hwatched.regular.owing.2 n hn
    exact ⟨hebbed.old n hn, hwatched.waits_iff.mpr (List.mem_append_right _ (List.mem_map_of_mem hfailed))⟩
  · rintro ⟨hplaced, hwaits⟩
    rcases hebbed.told n hplaced with hn | ⟨t, result, hreturned⟩
    · exact hn
    · exact absurd hreturned (hwaits.2 t result)

theorem Watched.later_close (h : s.Watched o) (more : List Move) :
    ∃ later, (s.close more).log = s.log ++ later ∧ ∀ entry ∈ later, entry.2.Late := by
  obtain ⟨later, hlater, hlate⟩ := (h.ebbed_close more).later
  rw [s.log_step_close] at hlater
  exact ⟨later, hlater, hlate⟩

theorem Watched.waiting_close (h : s.Watched o) (more : List Move) (hn : s.Waits n) :
    (∃ t, (t, .returns n (.failed .closed)) ∈ (s.close more).log) ∨
      ((s.close more).Waits n ∧ ((s.close more).queue.poll (s.close more).now n).2 = some (.failed .closed)) := by
  have hwatched := h.run_close more
  have hbarred := hwatched.barred (h.ebbed_close more).closed
  obtain ⟨later, hlater, hlate⟩ := h.later_close more
  have hbegun : n ∈ begun (s.close more).log := by
    rw [hlater, begun_append]
    exact List.mem_append_left _ hn.1
  rcases waits_or_returned hbegun with hwaits | ⟨t, result, hreturned⟩
  · exact Or.inr ⟨hwaits, hbarred.poll_of_mem _ (hwatched.mem_tickets hwaits)⟩
  · refine Or.inl ⟨t, ?_⟩
    have hmem := hreturned
    rw [hlater] at hmem
    rcases List.mem_append.mp hmem with hold | hnew
    · exact absurd hold (hn.2 t result)
    · cases hlate _ hnew
      exact hreturned

theorem Watched.rested_close (h : s.Watched o) (more : List Move) (hrests : (s.close more).rests = true) :
    ¬ (s.close more).Waits n := by
  intro hn
  have hopen := ((h.run_close more).full_at_rest hrests hn).1
  rw [(h.ebbed_close more).closed] at hopen
  cases hopen

theorem Watched.isFinished_close (h : s.Watched o) (more : List Move)
    (htold : ∀ n ∈ s.queue.placed, ¬ (s.close more).Waits n) : (s.close more).queue.isFinished = true := by
  have hnone : (s.close more).queue.outstanding = [] := by
    refine List.eq_nil_iff_forall_not_mem.mpr fun n hn => ?_
    obtain ⟨hplaced, hwaits⟩ := (h.mem_outstanding_close_iff more).mp hn
    exact htold n hplaced hwaits
  rw [isFinished, (h.ebbed_close more).closed, hnone]
  rfl

theorem Watched.not_isFinished_close (h : s.Watched o) (more : List Move)
    (hproducers : (s.close more).queue.producers ≠ 0) (hplaced : n ∈ s.queue.placed) (hwaits : (s.close more).Waits n) :
    (s.close more).queue.isFinished = false := by
  have hn := (h.mem_outstanding_close_iff more).mpr ⟨hplaced, hwaits⟩
  have hsome : (s.close more).queue.outstanding.isEmpty = false :=
    List.isEmpty_eq_false_iff.mpr (List.ne_nil_of_mem hn)
  rw [isFinished, hsome, Bool.and_false, Bool.false_or]
  exact beq_eq_false_iff_ne.mpr hproducers

/-- A closed queue that holds nothing has nothing later on, and who has been told does not wait again. -/
theorem Watched.ended_close (h : s.Watched o) (more rest : List Move) (hnil : (s.close more).queue.buffered = []) :
    (s.close (more ++ rest)).queue.buffered = [] ∧ ∀ n ∈ s.queue.placed, ¬ (s.close more).Waits n →
      ¬ (s.close (more ++ rest)).Waits n := by
  have hrest := ((h.run_close more).ebbed_run (h.ebbed_close more).closed rest).1
  rw [← close_append] at hrest
  have hempty := hrest.within
  rw [hnil, List.prefix_nil, List.append_eq_nil_iff] at hempty
  refine ⟨hempty.2, fun n hplaced hnot hwaits => ?_⟩
  have hn := (h.mem_outstanding_close_iff (more ++ rest)).mpr ⟨hplaced, hwaits⟩
  exact hnot ((h.mem_outstanding_close_iff more).mp (hrest.old n hn)).2

theorem Watched.cutOff (h : s.Watched o) (more : List Move) : s.CutOff more where
  refuses r := push_of_closed (h.ebbed_close more).closed _ r
  later := h.later_close more
  waiting n hn := h.waiting_close more hn
  rested hrests n := h.rested_close more hrests
  returns := by
    obtain ⟨ns, hrests⟩ := (h.run_close more).exists_rest
    rw [← close_append] at hrests
    exact ⟨ns, fun n => h.rested_close _ hrests⟩
  records hstays := ((h.step (.act .close)).ebbed_run rfl more).2 hstays
  held hne := ⟨recv_of_ne_nil hne, fun n hn => recvBatch_of_ne_nil hne hn⟩
  finished hnil htold rest := by
    obtain ⟨hempty, hstill⟩ := h.ended_close more rest hnil
    exact none_of_isFinished hempty (h.isFinished_close _ fun n hn => hstill n hn (htold n hn))
  blocked hnil hproducers n hplaced hwaits :=
    pending_of_not_isFinished hnil (h.not_isFinished_close more hproducers hplaced hwaits)

/-! ## As long as the queue has not been closed -/

theorem step_of_allows (h : s.allows m = true) : s.step m = s.happen m :=
  if_pos h

/-- What a move does to the handles of a queue. -/
theorem handles_step (s : Watch) (m : Move) :
    (m ≠ .act .close → m ≠ .abandon → (s.step m).queue.closed = s.queue.closed) ∧
      (s.step m).queue.producers = s.queue.producers + (if m = .act .addProducer then 1 else 0)
        - (if m = .act .dropProducer then 1 else 0) := by
  cases hallows : s.allows m with
  | false =>
      have hsame : s.step m = s := if_neg (by simp [hallows])
      rw [hsame]
      refine ⟨fun _ _ => rfl, ?_⟩
      rw [if_neg (by rintro rfl; cases hallows), if_neg (by rintro rfl; cases hallows)]
      rfl
  | true =>
      rw [step_of_allows hallows]
      cases m with
      | act op =>
          show (_ → _ → (s.queue.apply op).closed = _) ∧ (s.queue.apply op).producers = _
          by_cases hclose : op = .close
          · subst hclose
            exact ⟨fun hne => absurd rfl hne, rfl⟩
          · by_cases hadd : op = .addProducer
            · subst hadd
              exact ⟨fun _ _ => rfl, rfl⟩
            · by_cases hdrop : op = .dropProducer
              · subst hdrop
                exact ⟨fun _ _ => rfl, rfl⟩
              · have hkeeps := s.queue.keeps_apply hclose hadd hdrop
                refine ⟨fun _ _ => hkeeps.closed, ?_⟩
                rw [if_neg (by simpa using hadd), if_neg (by simpa using hdrop)]
                exact hkeeps.producers
      | poll ticket =>
          have hkeeps := keeps_resume (s.queue.giveUp fun w => w.ticket == ticket && w.isDue s.now) ticket
          exact ⟨fun _ _ => hkeeps.closed, hkeeps.producers⟩
      | elapse t => exact ⟨fun _ _ => rfl, rfl⟩
      | abandon => exact ⟨fun _ hne => absurd rfl hne, rfl⟩

theorem closed_run (hclose : .act .close ∉ ms) (hstays : .abandon ∉ ms) :
    (s.run ms).queue.closed = s.queue.closed := by
  induction ms generalizing s with
  | nil => rfl
  | cons m ms ih =>
      rw [List.mem_cons, not_or] at hclose hstays
      rw [run_cons, ih hclose.2 hstays.2]
      exact (s.handles_step m).1 (Ne.symm hclose.1) (Ne.symm hstays.1)

/-- No producer is dropped that is not there, of those at hand and those that have come. -/
def Droppable (producers : Nat) (ms : List Move) : Prop :=
  ∀ before after, ms = before ++ after →
    before.count (.act .dropProducer) ≤ producers + before.count (.act .addProducer)

theorem producers_run (h : Droppable s.queue.producers ms) :
    (s.run ms).queue.producers + ms.count (.act .dropProducer)
      = s.queue.producers + ms.count (.act .addProducer) := by
  induction ms generalizing s with
  | nil => rfl
  | cons m ms ih =>
      have hproducers := (s.handles_step m).2
      have hhead := h [m] ms rfl
      have hcount (op : Operation) (ms : List Move) :
          (m :: ms).count (.act op) = ms.count (.act op) + if m = .act op then 1 else 0 := by
        rw [List.count_cons]
        simp only [beq_iff_eq]
      rw [hcount, hcount] at hhead
      have hrest : Droppable (s.step m).queue.producers ms := by
        rintro before after rfl
        have hbefore := h (m :: before) after rfl
        rw [hcount, hcount] at hbefore
        simp only [List.count_nil] at hhead
        omega
      have hrun := ih hrest
      rw [run_cons, hcount, hcount]
      simp only [List.count_nil] at hhead
      omega

/-- The push that waits has got the place of the record taken out, and the queue is closed before it goes on. -/
example :
    let r : Record := ⟨[97], .v4 ⟨192, 0, 2, 10⟩ 40000, 0, 0⟩
    let o : QueueOptions := { capacity := 1, backpressure := .wait, pushTimeout := ⟨5⟩ }
    let s := (start o ⟨0⟩).run [.act (.push ⟨0⟩ r), .act (.push ⟨0⟩ r), .act .tryRecv]
    (s.close []).queue.recv.2 = .pending ∧ (s.close [.poll 0]).queue.recv.2 = .ready none := by
  decide +kernel

end Watch

end LogIntake.Queue
