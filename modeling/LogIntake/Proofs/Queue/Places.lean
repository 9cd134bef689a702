import LogIntake.Proofs.Queue.Polls

/-!
# The places of a queue

A queue never gives out more places than it has, and a place that becomes free while pushes wait goes to the oldest of
them. What each operation does to the pushes that have not ended is a chain of single events (`chain_apply`): a push
ends at once, begins to wait, or returns, or a place becomes free. So is what a push finds when it is polled
(`chain_poll`).
-/

namespace LogIntake.Queue

inductive Event where
  /-- A push ends as it begins. -/
  | ends (result : PushResult)
  | waits (ticket : Nat)
  /-- A push that has waited ends. -/
  | returns (ticket : Nat) (result : PushResult)
  /-- A place becomes free, and goes to the push with this ticket. -/
  | frees (taker : Option Nat)
  deriving DecidableEq, Repr

def pushed : Push → Event
  | .done result => .ends result
  | .waits ticket => .waits ticket

/-- The tickets of pushes to which places have been granted meanwhile. -/
def gained (q q' : Queue) : List Nat :=
  (q'.granted.drop q.granted.length).map Waiter.ticket

/-- So many places have become free. -/
def freed (q q' : Queue) (n : Nat) : List Event :=
  ((q.gained q').map some ++ List.replicate (n - (q.gained q').length) none).map .frees

/-- What happens in an operation. -/
def events (q : Queue) : Operation → List Event
  | .push now r => [pushed (q.push now r).2]
  | .resume ticket => ((q.resume ticket).2.map (Event.returns ticket)).toList
  | op => q.freed (q.apply op) (q.given op).length

/-! ## Room -/

/-- No more places are taken or granted than there are, and pushes wait only in an open queue that lets them. -/
structure Allotted (o : QueueOptions) (q : Queue) : Prop where
  capacity : q.capacity = max 1 o.capacity
  backpressure : q.backpressure = o.backpressure
  pushTimeout : q.pushTimeout = o.pushTimeout
  bounded : q.occupied ≤ q.capacity
  /-- Nobody waits for a place as long as there is one. -/
  full : q.waiting ≠ [] → q.isFull = true
  shut : q.closed = true → q.pending = []
  waits : q.pending ≠ [] → o.backpressure = .wait

variable {o : QueueOptions} {now t : Instant} {q q' : Queue}

theorem allotted_start (o : QueueOptions) : (start o).Allotted o :=
  ⟨rfl, rfl, rfl, Nat.zero_le _, fun hne => absurd rfl hne, fun _ => rfl, fun hne => absurd rfl hne⟩

/-- As many places are taken or granted as before, and nobody has come. -/
theorem Allotted.of_eq (h : q.Allotted o) (hcapacity : q'.capacity = q.capacity)
    (hback : q'.backpressure = q.backpressure)
    (htimeout : q'.pushTimeout = q.pushTimeout) (hclosed : q'.closed = q.closed) (hoccupied : q'.occupied = q.occupied)
    (hwaiting : ∀ w ∈ q'.waiting, w ∈ q.waiting) (hpending : ∀ w ∈ q'.pending, w ∈ q.pending) : q'.Allotted o := by
  have hsome {ws ws' : List Waiter} (hsub : ∀ w ∈ ws', w ∈ ws) (hne : ws' ≠ []) : ws ≠ [] := by
    obtain ⟨w, hw⟩ := List.exists_mem_of_ne_nil _ hne
    exact List.ne_nil_of_mem (hsub w hw)
  refine ⟨hcapacity.trans h.capacity, hback.trans h.backpressure, htimeout.trans h.pushTimeout, ?_, fun hne => ?_,
    fun hshut => ?_, fun hne => h.waits (hsome hpending hne)⟩
  · rw [hoccupied, hcapacity]
    exact h.bounded
  · rw [isFull, hoccupied, hcapacity]
    exact h.full (hsome hwaiting hne)
  · by_contra hne
    exact hsome hpending hne (h.shut (hclosed ▸ hshut))

theorem Allotted.report (h : q.Allotted o) (result : PushResult) : (q.report result).Allotted o := by
  cases result with
  | taken => exact h.of_eq rfl rfl rfl rfl rfl (fun _ => id) fun _ => id
  | failed e => exact h.of_eq rfl rfl rfl rfl rfl (fun _ => id) fun _ => id

theorem Allotted.push (h : q.Allotted o) (now : Instant) (r : Record) : (q.push now r).1.Allotted o := by
  unfold Queue.push finish
  split
  · exact h.report _
  · next hopen =>
      split
      · next hroom =>
          have hfree : q.occupied < q.capacity := by simpa [isFull] using hroom
          have hbounded : (q.take r).occupied ≤ q.capacity := by
            simp only [occupied, take, List.length_append, List.length_singleton] at hfree ⊢
            omega
          have hnobody (hne : q.waiting ≠ []) : (q.take r).isFull = true := by
            rw [h.full hne] at hroom
            cases hroom
          have htaken : (q.take r).Allotted o :=
            ⟨h.capacity, h.backpressure, h.pushTimeout, hbounded, hnobody, h.shut, h.waits⟩
          exact htaken.report _
      · next hfull =>
          split
          · exact h.report _
          · next hwait =>
              split
              · exact h.report _
              · have hisfull : q.isFull = true := by simpa using hfull
                exact ⟨h.capacity, h.backpressure, h.pushTimeout, h.bounded, fun _ => hisfull,
                  fun hclosed => absurd hclosed hopen, fun _ => h.backpressure.symm.trans hwait⟩

theorem Allotted.resume (h : q.Allotted o) (hregular : q.Regular) (ticket : Nat) : (q.resume ticket).1.Allotted o := by
  unfold Queue.resume
  split
  · next w hw =>
      have hlength := hregular.length_granted hw
      refine Allotted.report ?_ .taken
      refine h.of_eq rfl rfl rfl rfl ?_ (fun _ => id) fun v hv => ?_
      · simp only [occupied, take, List.length_append, List.length_singleton]
        omega
      · exact List.mem_append.mpr ((List.mem_append.mp hv).imp_left fun hv => (List.mem_filter.mp hv).1)
  · split
    · next e _ =>
        -- The push may give back a place, but then nobody waits.
        have hless := List.length_filter_le (· != ticket) q.outstanding
        refine Allotted.report ?_ (.failed e)
        refine ⟨h.capacity, h.backpressure, h.pushTimeout, ?_, fun hne => ?_, h.shut, h.waits⟩
        · have hbounded := h.bounded
          simp only [occupied] at hbounded ⊢
          omega
        · have hnone := hregular.owing.outstanding hne
          have hfull := h.full hne
          simp only [isFull, occupied, hnone, List.filter_nil] at hfull ⊢
          exact hfull
    · exact h

theorem Allotted.giveUp (h : q.Allotted o) (due : Waiter → Bool) : (q.giveUp due).Allotted o :=
  h.of_eq rfl rfl rfl rfl rfl (fun _ hw => (List.mem_filter.mp hw).1) fun _ hw =>
    List.mem_append.mpr ((List.mem_append.mp hw).imp_right fun hw => (List.mem_filter.mp hw).1)

theorem Allotted.poll (h : q.Allotted o) (hregular : q.Regular) (now : Instant) (ticket : Nat) :
    (q.poll now ticket).1.Allotted o :=
  (h.giveUp _).resume (hregular.giveUp _) ticket

/-- Places that have become free go to those who wait. -/
theorem Allotted.grant (h : q.Allotted o) (hcapacity : q'.capacity = q.capacity)
    (hback : q'.backpressure = q.backpressure)
    (htimeout : q'.pushTimeout = q.pushTimeout) (hclosed : q'.closed = q.closed) (hbounded : q'.occupied ≤ q.capacity)
    (hpending : q'.pending = q.pending) : q'.grant.Allotted o := by
  have hsame : q'.grant.pending = q.pending := q'.pending_grant.trans hpending
  have hoccupied : q'.grant.occupied = q'.occupied + min (q'.capacity - q'.occupied) q'.waiting.length := by
    simp only [occupied, Queue.grant, List.length_append, List.length_take]
    omega
  have hgrant : q'.grant.occupied ≤ q'.grant.capacity := by
    show q'.grant.occupied ≤ q'.capacity
    omega
  exact ⟨hcapacity.trans h.capacity, hback.trans h.backpressure, htimeout.trans h.pushTimeout, hgrant, isFull_grant,
    fun hshut => hsame.trans (h.shut (hclosed ▸ hshut)), fun hne => h.waits (hsame ▸ hne)⟩

theorem Allotted.drain (h : q.Allotted o) (n : Nat) : (q.drain n).1.Allotted o := by
  have hlength : (q.buffered.drop n).length + (q.buffered.take n).length = q.buffered.length := by
    rw [List.length_drop, List.length_take]
    omega
  show (popped { q with buffered := q.buffered.drop n } (q.buffered.take n).length).Allotted o
  unfold popped
  split
  · next hnone =>
      refine h.of_eq rfl rfl rfl rfl ?_ (fun _ => id) fun _ => id
      simp only [occupied]
      omega
  · refine h.grant rfl rfl rfl rfl ?_ rfl
    have hbounded := h.bounded
    simp only [occupied, gauge] at hbounded ⊢
    omega

/-- No place becomes free when a queue is closed. -/
theorem occupied_close (q : Queue) : q.close.occupied = q.occupied := by
  simp only [occupied, Queue.close, List.length_append, List.length_map, List.length_nil]
  omega

theorem Allotted.close (h : q.Allotted o) : q.close.Allotted o :=
  ⟨h.capacity, h.backpressure, h.pushTimeout, q.occupied_close ▸ h.bounded, fun hne => absurd rfl hne, fun _ => rfl,
    fun hne => absurd rfl hne⟩

theorem Allotted.abandon (h : q.Allotted o) : q.abandon.Allotted o := by
  refine ⟨h.capacity, h.backpressure, h.pushTimeout, ?_, fun hne => absurd rfl hne, fun _ => rfl,
    fun hne => absurd rfl hne⟩
  have hbounded := h.bounded
  rw [Queue.abandon, occupied_close]
  simp only [occupied, List.length_nil] at hbounded ⊢
  exact Nat.le_trans (by omega) hbounded

/-! ## The consumer -/

theorem given_tryRecv (q : Queue) : q.given .tryRecv = (q.drain 1).2 := by
  show (q.buffered.take 1).head?.toList = q.buffered.take 1
  cases q.buffered with
  | nil => rfl
  | cons r rest => rfl

/-- A consumer that waits takes nothing out. -/
theorem exists_drain_recv (q : Queue) : ∃ n, q.recv.1 = (q.drain n).1 ∧ q.given .recv = (q.drain n).2 := by
  simp only [given]
  unfold recv
  split
  · refine ⟨0, rfl, ?_⟩
    cases q.isFinished with
    | true => rfl
    | false => rfl
  · exact ⟨1, rfl, q.given_tryRecv⟩

theorem exists_drain_recvBatch (q : Queue) (n : Nat) :
    ∃ m, (q.recvBatch n).1 = (q.drain m).1 ∧ q.given (.recvBatch n) = (q.drain m).2 := by
  simp only [given]
  unfold recvBatch
  split
  · exact ⟨0, rfl, rfl⟩
  · split
    · refine ⟨0, rfl, ?_⟩
      cases q.isFinished with
      | true => rfl
      | false => rfl
    · exact ⟨n, rfl, rfl⟩

theorem keepsPlaces_recv (q : Queue) : q.KeepsPlaces q.recv.1 := by
  obtain ⟨n, hdrain, -⟩ := q.exists_drain_recv
  rw [hdrain]
  exact q.keepsPlaces_drain n

theorem keepsPlaces_recvBatch (q : Queue) (n : Nat) : q.KeepsPlaces (q.recvBatch n).1 := by
  obtain ⟨m, hdrain, -⟩ := q.exists_drain_recvBatch n
  rw [hdrain]
  exact q.keepsPlaces_drain m

/-- Nothing else closes a queue, or brings a producer or takes one away. -/
theorem keeps_apply (q : Queue) {op : Operation} (hclose : op ≠ .close) (hadd : op ≠ .addProducer)
    (hdrop : op ≠ .dropProducer) : q.Keeps (q.apply op) := by
  cases op with
  | push t r => exact (q.keepsPlaces_push t r).toKeeps
  | resume ticket => exact q.keeps_resume ticket
  | expire t => exact ⟨rfl, rfl⟩
  | addProducer => exact absurd rfl hadd
  | dropProducer => exact absurd rfl hdrop
  | tryRecv => exact (q.keepsPlaces_drain 1).toKeeps
  | recv => exact q.keepsPlaces_recv.toKeeps
  | drain n => exact (q.keepsPlaces_drain n).toKeeps
  | recvBatch n => exact (q.keepsPlaces_recvBatch n).toKeeps
  | close => exact absurd rfl hclose

theorem Allotted.apply (h : q.Allotted o) (hregular : q.Regular) (op : Operation) : (q.apply op).Allotted o := by
  cases op with
  | push t r => exact h.push t r
  | resume ticket => exact h.resume hregular ticket
  | expire t => exact h.giveUp (·.isDue t)
  | addProducer => exact h.of_eq rfl rfl rfl rfl rfl (fun _ => id) fun _ => id
  | dropProducer => exact h.of_eq rfl rfl rfl rfl rfl (fun _ => id) fun _ => id
  | tryRecv => exact h.drain 1
  | recv =>
      obtain ⟨n, hdrain, -⟩ := q.exists_drain_recv
      rw [Queue.apply, hdrain]
      exact h.drain n
  | drain n => exact h.drain n
  | recvBatch n =>
      obtain ⟨m, hdrain, -⟩ := q.exists_drain_recvBatch n
      rw [Queue.apply, hdrain]
      exact h.drain m
  | close => exact h.close

/-! ## Pushes that have not ended -/

/-- The pushes that have not ended, those with a place first, and the next ticket. -/
structure Line where
  granted : List Waiter
  waiting : List Waiter
  failed : List (Nat × PushError)
  nextTicket : Nat
  deriving DecidableEq, Repr

def line (q : Queue) : Line :=
  ⟨q.granted, q.waiting, q.failed, q.nextTicket⟩

/-- What a push may be told as it begins. -/
def AtOnce (o : QueueOptions) : PushResult → Prop
  | .failed (.full _) => o.backpressure = .reject
  | .failed (.timedOut waited) => waited = o.pushTimeout ∧ o.pushTimeout.isZero = true
  | _ => True

namespace Line

/-- The tickets of all pushes whose producers have not got a result yet. -/
def tickets (l : Line) : List Nat :=
  (l.granted ++ l.waiting).map Waiter.ticket ++ l.failed.map (·.1)

theorem mem_tickets_iff (l : Line) {n : Nat} :
    n ∈ l.tickets ↔ (∃ w ∈ l.granted ++ l.waiting, w.ticket = n) ∨ ∃ e, (n, e) ∈ l.failed := by
  rw [tickets, List.mem_append, List.mem_map, List.mem_map]
  simp only [Prod.exists, exists_and_right, exists_eq_right]

def closed (l : Line) : Line :=
  ⟨[], [], l.failed ++ (l.granted ++ l.waiting).map (fun w => (w.ticket, .closed)), l.nextTicket⟩

/-- What a single event does to the pushes that have not ended. -/
inductive Step (o : QueueOptions) (now : Instant) : Line → Event → Line → Prop
  | ends (l : Line) (result : PushResult) : AtOnce o result → Step o now l (.ends result) l
  | waits (l : Line) (r : Record) : o.backpressure = .wait → Step o now l (.waits l.nextTicket)
      { l with
        waiting := l.waiting ++ [⟨l.nextTicket, r, now.plus o.pushTimeout⟩]
        nextTicket := l.nextTicket + 1 }
  | takes (l : Line) (w : Waiter) : w ∈ l.granted → Step o now l (.returns w.ticket .taken)
      { l with granted := l.granted.filter (·.ticket != w.ticket) }
  | fails (l : Line) (ticket : Nat) (e : PushError) : (ticket, e) ∈ l.failed →
      Step o now l (.returns ticket (.failed e)) { l with failed := l.failed.filter (·.1 != ticket) }
  | lapses (l : Line) (w : Waiter) : w ∈ l.waiting → w.deadline.nanos ≤ now.nanos →
      Step o now l (.returns w.ticket (.failed (.timedOut o.pushTimeout)))
        { l with waiting := l.waiting.filter (·.ticket != w.ticket) }
  | grants (granted : List Waiter) (w : Waiter) (waiting : List Waiter) (failed : List (Nat × PushError))
      (nextTicket : Nat) : Step o now ⟨granted, w :: waiting, failed, nextTicket⟩ (.frees (some w.ticket))
        ⟨granted ++ [w], waiting, failed, nextTicket⟩
  | vacates (l : Line) : l.waiting = [] → Step o now l (.frees none) l

/-- What several events do one after the other; a queue may be closed behind them. -/
inductive Chain (o : QueueOptions) (now : Instant) : Line → List Event → Line → Prop
  | refl (l : Line) : Chain o now l [] l
  | closes (l : Line) : Chain o now l [] l.closed
  | cons {l l' l'' : Line} {e : Event} {es : List Event} : Step o now l e l' → Chain o now l' es l'' →
      Chain o now l (e :: es) l''

theorem Step.chain {l l' : Line} {e : Event} (h : Step o now l e l') : Chain o now l [e] l' :=
  .cons h (.refl l')

/-- The places that become free go to the oldest pushes that wait, and the others to nobody. -/
theorem chain_frees (n : Nat) (granted waiting : List Waiter) (failed : List (Nat × PushError)) (nextTicket : Nat) :
    Chain o now ⟨granted, waiting, failed, nextTicket⟩
      ((((waiting.take n).map Waiter.ticket).map some ++ List.replicate (n - waiting.length) none).map .frees)
      ⟨granted ++ waiting.take n, waiting.drop n, failed, nextTicket⟩ := by
  induction n generalizing granted waiting with
  | zero => simpa using Chain.refl _
  | succ n ih =>
      cases waiting with
      | nil =>
          have hrest := ih granted []
          simp only [List.take_nil, List.drop_nil, List.append_nil, List.length_nil] at hrest ⊢
          exact .cons (.vacates _ rfl) hrest
      | cons w waiting =>
          have hrest := ih (granted ++ [w]) waiting
          rw [List.append_assoc] at hrest
          simpa using Chain.cons (.grants granted w waiting failed nextTicket) hrest

end Line

theorem chain_push (h : q.Allotted o) (now : Instant) (r : Record) :
    Line.Chain o now q.line [pushed (q.push now r).2] (q.push now r).1.line := by
  have hdone (result : PushResult) (hresult : AtOnce o result) :
      Line.Chain o now q.line [.ends result] (q.report result).line := by
    cases result with
    | taken => exact (Line.Step.ends _ _ hresult).chain
    | failed e => exact (Line.Step.ends _ _ hresult).chain
  unfold Queue.push finish
  split
  · exact hdone (.failed .closed) trivial
  · split
    · exact (Line.Step.ends q.line .taken trivial).chain
    · split
      · next hreject => exact hdone (.failed (.full q.capacity)) (h.backpressure.symm.trans hreject)
      · next hwait =>
          split
          · next hzero => exact hdone (.failed (.timedOut q.pushTimeout)) ⟨h.pushTimeout, h.pushTimeout ▸ hzero⟩
          · have hwaits : Line.Step o now q.line _ _ := .waits q.line r (h.backpressure.symm.trans hwait)
            rw [← h.pushTimeout] at hwaits
            exact hwaits.chain

theorem chain_resume (q : Queue) (now : Instant) (ticket : Nat) :
    Line.Chain o now q.line ((q.resume ticket).2.map (Event.returns ticket)).toList (q.resume ticket).1.line := by
  unfold Queue.resume
  split
  · next w hw =>
      obtain rfl : w.ticket = ticket := by simpa using List.find?_some hw
      exact (Line.Step.takes q.line w (List.mem_of_find?_eq_some hw)).chain
  · split
    · next e hlookup =>
        have hmem : (ticket, e) ∈ q.failed := by
          obtain ⟨before, after, hfailed, -⟩ := List.lookup_eq_some_iff.mp hlookup
          rw [hfailed]
          exact List.mem_append_right _ List.mem_cons_self
        exact (Line.Step.fails q.line ticket e hmem).chain
    · exact .refl _

theorem chain_poll (h : q.Allotted o) (hregular : q.Regular) (now : Instant) (ticket : Nat) :
    Line.Chain o now q.line ((q.poll now ticket).2.map (Event.returns ticket)).toList (q.poll now ticket).1.line := by
  have hpolled := hregular.polled now ticket
  generalize q.poll now ticket = polled at hpolled
  cases hpolled with
  | timedOut w hw hdue =>
      have hlapses := (Line.Step.lapses (o := o) q.line w hw (decide_eq_true_eq.mp hdue)).chain
      rwa [← h.pushTimeout] at hlapses
  | resumed ticket _ => exact q.chain_resume now ticket

/-- A full queue has as many free places after records have been taken out as there were records. -/
theorem line_drain (h : q.Allotted o) (n : Nat) :
    (q.drain n).1.line = ⟨q.granted ++ q.waiting.take (q.drain n).2.length, q.waiting.drop (q.drain n).2.length,
      q.failed, q.nextTicket⟩ := by
  show (popped { q with buffered := q.buffered.drop n } (q.buffered.take n).length).line
    = ⟨q.granted ++ q.waiting.take (q.buffered.take n).length, q.waiting.drop (q.buffered.take n).length, _, _⟩
  generalize hk : (q.buffered.take n).length = k
  unfold popped
  split
  · next hnone => simp [line, hnone]
  · by_cases hnil : q.waiting = []
    · simp [line, grant, gauge, hnil]
    · have hbounded := h.bounded
      have hisfull : q.capacity ≤ q.occupied := by simpa [isFull] using h.full hnil
      have hfree : q.capacity - ((q.buffered.drop n).length + q.granted.length + q.outstanding.length) = k := by
        simp only [occupied] at hbounded hisfull
        simp only [List.length_take] at hk
        simp only [List.length_drop]
        omega
      simp only [line, grant, gauge, occupied, hfree]

theorem chain_drain (h : q.Allotted o) (now : Instant) (n : Nat) :
    Line.Chain o now q.line (q.freed (q.drain n).1 (q.drain n).2.length) (q.drain n).1.line := by
  have hline := line_drain h n
  generalize (q.drain n).2.length = k at hline ⊢
  have hgained : q.gained (q.drain n).1 = (q.waiting.take k).map Waiter.ticket := by
    have hgranted : (q.drain n).1.granted = q.granted ++ q.waiting.take k := congrArg Line.granted hline
    rw [gained, hgranted, List.drop_left]
  have hless : k - (q.gained (q.drain n).1).length = k - q.waiting.length := by
    rw [hgained, List.length_map, List.length_take]
    omega
  rw [freed, hless, hgained, hline]
  exact Line.chain_frees ..

theorem freed_of_granted (h : q'.granted = q.granted) : q.freed q' 0 = [] := by
  simp [freed, gained, h]

/-- What an operation does to the pushes that have not ended. -/
theorem chain_apply (h : q.Allotted o) {op : Operation} (hat : op.isAt now = true) :
    Line.Chain o now q.line (q.events op) (q.apply op).line := by
  have hdrain := chain_drain h now
  cases op with
  | push t r =>
      obtain rfl : t = now := by simpa [Operation.isAt] using hat
      exact chain_push h t r
  | resume ticket => exact chain_resume q now ticket
  | expire t => cases hat
  | addProducer =>
      have hnone : q.events .addProducer = [] := freed_of_granted rfl
      rw [hnone]
      exact .refl _
  | dropProducer =>
      have hnone : q.events .dropProducer = [] := freed_of_granted rfl
      rw [hnone]
      exact .refl _
  | tryRecv =>
      have hgiven := hdrain 1
      rw [← given_tryRecv] at hgiven
      exact hgiven
  | recv =>
      obtain ⟨n, happly, hgiven⟩ := q.exists_drain_recv
      have hrecv := hdrain n
      rw [← happly, ← hgiven] at hrecv
      exact hrecv
  | drain n => exact hdrain n
  | recvBatch n =>
      obtain ⟨m, happly, hgiven⟩ := q.exists_drain_recvBatch n
      have hrecv := hdrain m
      rw [← happly, ← hgiven] at hrecv
      exact hrecv
  | close =>
      have hnone : q.events .close = [] := by simp [events, freed, gained, Queue.apply, Queue.close, given]
      rw [hnone]
      exact .closes _

end LogIntake.Queue
