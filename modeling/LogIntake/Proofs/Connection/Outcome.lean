import LogIntake.Proofs.Connection.Sound

/-!
# The outcome of a connection

When all pushes succeed, no frame comes too late and no signal to shut down is given, what becomes of a
connection is told by its frames alone. A connection on which reading never has to wait comes to such an end.
-/

namespace LogIntake

/-- Frames of which the first that is no record stands at a place have nothing else at that place. -/
theorem first_malformed {before before' after after' : List Frame} {unit unit' : Malformed}
    (h : before ++ .malformed unit :: after = before' ++ .malformed unit' :: after')
    (hall : ∀ f ∈ before, f.isRecord) (hall' : ∀ f ∈ before', f.isRecord) :
    before = before' ∧ unit = unit' := by
  have hbefore : (before ++ .malformed unit :: after).takeWhile Frame.isRecord = before := by
    rw [List.takeWhile_append_of_pos hall]
    exact List.append_nil before
  have hbefore' : (before' ++ .malformed unit' :: after').takeWhile Frame.isRecord = before' := by
    rw [List.takeWhile_append_of_pos hall']
    exact List.append_nil before'
  obtain rfl : before = before' := by rw [← hbefore, h, hbefore']
  have hrest := List.append_cancel_left h
  cases hrest
  exact ⟨rfl, rfl⟩

theorem units_of_records {frames : List Frame} (h : ∀ f ∈ frames, f.isRecord) : units frames = [] := by
  refine List.filterMap_eq_nil_iff.mpr fun f hf => ?_
  cases f with
  | record payload => rfl
  | malformed unit => cases h _ hf

/-- What becomes of a connection: the records that enter the queue, and how it is closed. -/
structure Assignment.Outcome (a : Assignment) (entered : List Record) (k : Closing) : Prop where
  refused : ∀ before unit after, a.options.policy = .terminate → a.frames = before ++ .malformed unit :: after →
    (∀ f ∈ before, f.isRecord) → entered = a.records (payloads before) ∧ k.summary.malformed = 1 ∧
      k.summary.reason = .decode ∧ k.error = some (.decode a.peer unit)
  served : (a.options.policy = .terminate → ∀ f ∈ a.frames, f.isRecord) →
    entered = a.records (payloads a.frames) ∧ k.summary.malformed = (units a.frames).length ∧
      (a.parse.ending = .desync →
        k.summary.reason = .framing ∧ ∃ desync : Desync, k.error = some (.framing a.peer desync.reason)) ∧
      (a.parse.ending ≠ .desync → ∀ cause, a.fault? = some cause →
        k.summary.reason = .io ∧ k.error = some (.connection a.peer cause)) ∧
      (a.parse.ending ≠ .desync → a.fault? = none →
        k.summary.reason = .eof ∧ k.error = none ∧ a.parse.ending.tail? = some k.summary.discarded)
  records : k.summary.records = entered.length
  sequences : entered.map (·.sequence) = List.range entered.length
  connection : k.summary.connection = a.connection ∧ k.summary.peer = a.peer

namespace Worker

variable {a : Assignment} {b : Book} {ps : List Bytes} {failure : Option (Bytes × PushError)} {k : Closing}

theorem Closed.failure_eq_none {stopping : Bool} (h : Closed a stopping b ps failure k)
    (hall : ∀ result ∈ b.results, result = .taken) : failure = none := by
  cases failure with
  | none => rfl
  | some f =>
      have hlast : PushResult.failed f.2 ∈ b.results := by
        rw [h.results]
        exact List.mem_append_right _ (List.mem_singleton_self _)
      cases hall _ hlast

theorem sequences_records (a : Assignment) (ps : List Bytes) :
    (a.records ps).map (·.sequence) = List.range (a.records ps).length := by
  refine List.ext_getElem ?_ fun i hi hi' => ?_
  · simp [Assignment.records]
  · simp [Assignment.records, Assignment.record]

theorem Closed.entered_eq {stopping : Bool} (h : Closed a stopping b ps none k) :
    b.entered = a.records (payloads b.frames) := by
  rw [h.entered, h.taken]
  exact congrArg a.records (List.append_nil ps).symm

theorem Closed.records_eq {stopping : Bool} (h : Closed a stopping b ps failure k) :
    k.summary.records = b.entered.length := by
  rw [h.records, h.entered, a.length_records]

theorem Closed.sequences {stopping : Bool} (h : Closed a stopping b ps failure k) :
    b.entered.map (·.sequence) = List.range b.entered.length := by
  rw [h.entered]
  exact sequences_records a ps

/-- A connection is closed with all its frames taken. -/
theorem Closed.outcome_of_all (h : Closed a false b ps none k) (hstrict : Strict a b.frames)
    (hframes : b.frames = a.frames)
    (hdesync : a.parse.ending = .desync →
      k.summary.reason = .framing ∧ ∃ desync : Desync, k.error = some (.framing a.peer desync.reason))
    (hfault : a.parse.ending ≠ .desync → ∀ cause, a.fault? = some cause →
      k.summary.reason = .io ∧ k.error = some (.connection a.peer cause))
    (hended : a.parse.ending ≠ .desync → a.fault? = none →
      k.summary.reason = .eof ∧ k.error = none ∧ a.parse.ending.tail? = some k.summary.discarded) :
    a.Outcome b.entered k := by
  refine ⟨fun before unit after hpolicy hsplit _ => ?_, fun _ => ⟨?_, ?_, hdesync, hfault, hended⟩, h.records_eq,
    h.sequences, h.connection, h.peer⟩
  · have hmem : Frame.malformed unit ∈ b.frames := by
      rw [hframes, hsplit]
      exact List.mem_append_right _ List.mem_cons_self
    cases hstrict hpolicy _ hmem
  · rw [h.entered_eq, hframes]
  · rw [h.malformed, h.reported, hframes]

/-- A connection is closed with its first malformed unit. -/
theorem Closed.outcome_of_refused (h : Closed a false b ps none k) {before : List Frame} {unit : Malformed}
    (hpolicy : a.options.policy = .terminate) (hframes : b.frames = before ++ [.malformed unit])
    (hall : ∀ f ∈ before, f.isRecord) (hreason : k.summary.reason = .decode)
    (herror : k.error = some (.decode a.peer unit)) : a.Outcome b.entered k := by
  obtain ⟨after, hafter⟩ := h.frames
  rw [hframes, List.append_assoc] at hafter
  have hpayloads : payloads b.frames = payloads before := by
    rw [hframes, payloads_append]
    exact List.append_nil _
  refine ⟨fun before' unit' after' _ hsplit hall' => ?_, fun hrecords => ?_, h.records_eq, h.sequences, h.connection,
    h.peer⟩
  · obtain ⟨rfl, rfl⟩ := first_malformed (hafter.trans hsplit) hall hall'
    refine ⟨?_, ?_, hreason, herror⟩
    · rw [h.entered_eq, hpayloads]
    · rw [h.malformed, h.reported, hframes, units_append, units_of_records hall]
      rfl
  · have hmem : Frame.malformed unit ∈ a.frames := by
      rw [← hafter]
      exact List.mem_append_right _ List.mem_cons_self
    cases hrecords hpolicy _ hmem

theorem Closed.outcome (h : Closed a false b ps none k) (hreason : k.summary.reason ≠ .timeout) :
    a.Outcome b.entered k := by
  have hcause : Cause a false b.frames none k.summary.reason k.error k.summary.discarded := h.cause
  obtain ⟨⟨connection, peer, records, malformed, discarded, reason⟩, error⟩ := k
  cases hcause with
  | eof _ hstrict hsound hgiven htail =>
      have hframes : b.frames = a.frames := by
        rw [Assignment.frames, hsound]
        exact hgiven.symm
      refine h.outcome_of_all hstrict hframes (fun hdesync => ?_) (fun _ cause hfault => ?_)
        fun _ _ => ⟨rfl, rfl, htail⟩
      · rw [hdesync] at htail
        cases htail
      · rw [hsound] at hfault
        cases hfault
  | io cause _ hstrict hfault hgiven hending =>
      have hframes : b.frames = a.frames := by
        rw [Assignment.frames, hfault]
        exact hgiven.symm
      refine h.outcome_of_all hstrict hframes (fun hdesync => absurd hdesync hending) (fun _ cause' hfault' => ?_)
        fun _ hnone => ?_
      · obtain rfl := Option.some.inj (hfault.symm.trans hfault')
        exact ⟨rfl, rfl⟩
      · rw [hfault] at hnone
        cases hnone
  | framing desync _ hstrict hgiven hending =>
      have hframes : b.frames = a.frames := by
        rw [Assignment.frames, Parse.until_of_desync hending]
        exact hgiven.symm
      exact h.outcome_of_all hstrict hframes (fun _ => ⟨rfl, desync, rfl⟩) (fun hne => absurd hending hne)
        fun hne => absurd hending hne
  | decode before unit _ hpolicy hgiven hall => exact h.outcome_of_refused hpolicy hgiven hall rfl rfl
  | timeout => exact absurd rfl hreason
  | shutdown htold => cases htold

end Worker

namespace Stint

variable {a : Assignment} {s : Stint} {k : Closing}

theorem Sound.outcome (h : s.Sound a) (hk : s.closing = some k) (hrunning : s.stopping = false)
    (hreason : k.summary.reason ≠ .timeout) (hall : ∀ result ∈ s.book.results, result = .taken) :
    a.Outcome s.book.entered k := by
  obtain ⟨stopping, ps, failure, hstopping, hclosed⟩ := h.ended k hk
  obtain rfl : stopping = false := by
    refine Bool.eq_false_iff.mpr fun htold => ?_
    rw [hstopping htold] at hrunning
    cases hrunning
  obtain rfl := hclosed.failure_eq_none hall
  exact hclosed.outcome hreason

/-- A worker goes on at most once for each frame, and once when it starts. -/
theorem Sound.progress (h : s.Sound a) : s.book.progress ≤ a.frames.length + 1 := by
  cases hclosing : s.closing with
  | none =>
      obtain ⟨ps, hand, hserving, -, -⟩ := h.going hclosing
      have hle : s.book.frames.length ≤ a.frames.length := hserving.along.isPrefix.length_le
      have hprogress := hserving.progress
      omega
  | some k =>
      obtain ⟨stopping, ps, failure, -, hclosed⟩ := h.ended k hclosing
      have hle := hclosed.frames.length_le
      have hprogress := hclosed.progress
      omega

end Stint

/-! ## Streams that never let their readers wait -/

def Source.Step.isReady : Source.Step → Bool
  | .data _ | .failure _ => true
  | _ => false

def Source.Ready (s : Source) : Prop :=
  ∀ step ∈ s.steps, step.isReady

/-- A read that finds something, or the end. -/
structure Source.Reading.Prompt (reading : Source.Reading) (signalled : Bool) (allowance : Nat) : Prop where
  rest : reading.rest.Ready
  result : reading.result ≠ .blocked ∧ reading.result ≠ .spent
  signalled : reading.signalled = signalled
  allowance : reading.allowance = allowance

theorem Source.prompt_readSteps (now : Instant) (room : Nat) (pausedUntil : Option Instant) (signalled : Bool)
    (allowance : Nat) {steps : List Step} (h : ∀ step ∈ steps, step.isReady) :
    (readSteps now room pausedUntil signalled allowance steps).Prompt signalled allowance := by
  induction steps generalizing pausedUntil with
  | nil => exact ⟨by simp [readSteps, Ready], ⟨by simp [readSteps], by simp [readSteps]⟩, rfl, rfl⟩
  | cons step rest ih =>
      obtain ⟨hstep, hrest⟩ := List.forall_mem_cons.mp h
      cases step with
      | data bytes =>
          unfold readSteps
          split
          · exact ih none hrest
          · split
            · exact ⟨hrest, ⟨by simp, by simp⟩, rfl, rfl⟩
            · exact ⟨List.forall_mem_cons.mpr ⟨rfl, hrest⟩, ⟨by simp, by simp⟩, rfl, rfl⟩
      | failure cause => exact ⟨hrest, ⟨by simp [readSteps], by simp [readSteps]⟩, rfl, rfl⟩
      | pause span => cases hstep
      | signal => cases hstep
      | silence => cases hstep

theorem Source.Ready.read {s : Source} (h : s.Ready) (now : Instant) (room allowance : Nat) :
    (s.read now room allowance).Prompt false allowance :=
  prompt_readSteps now (max 1 room) s.pausedUntil false allowance h

theorem Source.Reading.Prompt.or_signalled {reading : Source.Reading} {allowance : Nat}
    (h : reading.Prompt false allowance) (signalled : Bool) : (signalled || reading.signalled) = signalled := by
  rw [h.signalled, Bool.or_false]

/-- An arrival for which nobody had to wait. -/
structure Reader.Result.Prompt (result : Reader.Result) (signalled : Bool) (allowance : Nat) : Prop where
  rest : result.reader.source.Ready
  arrival : result.arrival ≠ .blocked ∧ result.arrival ≠ .spent
  signalled : result.signalled = signalled
  allowance : result.allowance = allowance

namespace Reader

variable {r : Reader}

theorem prompt_finish (h : r.source.Ready) (signalled : Bool) (allowance : Nat) :
    (r.finish signalled allowance).Prompt signalled allowance := by
  unfold finish
  split
  · exact ⟨by rwa [source_settle], ⟨by simp, by simp⟩, rfl, rfl⟩
  · exact ⟨by rwa [source_settle], ⟨by simp, by simp⟩, rfl, rfl⟩
  · exact ⟨by rwa [source_settle], ⟨by simp, by simp⟩, rfl, rfl⟩

theorem prompt_fill (now : Instant) (newest : Option Nat) (h : r.source.Ready) (signalled : Bool) (allowance : Nat) :
    (fill now newest r signalled allowance).Prompt signalled allowance := by
  fun_induction fill now newest r signalled allowance with
  | case1 r signalled allowance ready reading _ _ bytes hbytes fed d frame hd =>
      have hread := h.read now (ready.storage.room r.decoder.buffer.length) allowance
      refine ⟨?_, ⟨by simp, by simp⟩, hread.or_signalled signalled, hread.allowance⟩
      rw [source_settle]
      exact hread.rest
  | case2 r signalled allowance ready reading _ _ bytes hbytes fed d hd ih =>
      have hread := h.read now (ready.storage.room r.decoder.buffer.length) allowance
      have hnext := ih (by rw [source_settle]; exact hread.rest)
      exact ⟨hnext.rest, hnext.arrival, hnext.signalled.trans (hread.or_signalled signalled),
        hnext.allowance.trans hread.allowance⟩
  | case3 r signalled allowance ready reading _ _ bytes hbytes fed d desync hd =>
      have hread := h.read now (ready.storage.room r.decoder.buffer.length) allowance
      refine ⟨?_, ⟨by simp, by simp⟩, hread.or_signalled signalled, hread.allowance⟩
      rw [source_settle]
      exact hread.rest
  | case4 r signalled allowance ready reading _ rest hended =>
      have hread := h.read now (ready.storage.room r.decoder.buffer.length) allowance
      have hfinish := prompt_finish (r := rest) hread.rest (signalled || reading.signalled) reading.allowance
      exact ⟨hfinish.rest, hfinish.arrival, hfinish.signalled.trans (hread.or_signalled signalled),
        hfinish.allowance.trans hread.allowance⟩
  | case5 r signalled allowance ready reading _ _ cause hfailed =>
      have hread := h.read now (ready.storage.room r.decoder.buffer.length) allowance
      exact ⟨hread.rest, ⟨by simp, by simp⟩, hread.or_signalled signalled, hread.allowance⟩
  | case6 r signalled allowance ready reading _ rest hblocked =>
      exact absurd hblocked (h.read now (ready.storage.room r.decoder.buffer.length) allowance).result.1
  | case7 r signalled allowance ready reading _ rest hspent =>
      exact absurd hspent (h.read now (ready.storage.room r.decoder.buffer.length) allowance).result.2

theorem prompt_next (now : Instant) (newest : Option Nat) (h : r.source.Ready) (allowance : Nat) :
    (r.next now newest allowance).Prompt false allowance := by
  unfold Reader.next
  cases r.stage with
  | filling => exact prompt_fill now newest h false allowance
  | ending => exact prompt_finish h false allowance
  | framing =>
      simp only
      split
      · exact ⟨by rwa [source_settle], ⟨by simp, by simp⟩, rfl, rfl⟩
      · exact prompt_fill now newest (by rwa [source_settle]) false allowance
      · exact ⟨by rwa [source_settle], ⟨by simp, by simp⟩, rfl, rfl⟩

end Reader

namespace Queue

/-- A queue in which there is room for all, since it is empty and nobody waits for a place. -/
structure Roomy (q : Queue) : Prop where
  isOpen : q.closed = false
  capacity : 0 < q.capacity
  buffered : q.buffered = []
  granted : q.granted = []
  waiting : q.waiting = []
  outstanding : q.outstanding = []

variable {q : Queue}

theorem roomy_start (o : QueueOptions) : (start o).Roomy :=
  ⟨rfl, Nat.lt_of_lt_of_le Nat.one_pos (Nat.le_max_left ..), rfl, rfl, rfl, rfl⟩

theorem Roomy.popped (h : q.Roomy) (n : Nat) : (q.popped n).Roomy := by
  unfold Queue.popped
  split
  · exact h
  · refine ⟨h.isOpen, h.capacity, h.buffered, ?_, ?_, h.outstanding⟩
    · show q.granted ++ q.waiting.take _ = []
      rw [h.granted, h.waiting, List.take_nil]
      rfl
    · show q.waiting.drop _ = []
      rw [h.waiting, List.drop_nil]

theorem Roomy.drain (h : q.Roomy) (n : Nat) : (q.drain n).1.Roomy := by
  have hrest : Roomy { q with buffered := q.buffered.drop n } :=
    ⟨h.isOpen, h.capacity, by rw [h.buffered, List.drop_nil], h.granted, h.waiting, h.outstanding⟩
  exact hrest.popped _

/-- A push succeeds, and the consumer makes room again. -/
theorem Roomy.push (h : q.Roomy) (now : Instant) (r : Record) :
    ∃ q', q.push now r = (q', .done .taken) ∧ (q'.drain 1).1.Roomy := by
  have hroom : q.isFull = false := by
    have hcapacity := h.capacity
    rw [isFull, occupied, h.buffered, h.granted, h.outstanding]
    exact decide_eq_false (Nat.not_le_of_gt hcapacity)
  refine ⟨(q.take r).report .taken, ?_, ?_⟩
  · rw [Queue.push, h.isOpen, hroom]
    rfl
  · have hrest : Roomy { (q.take r).report .taken with buffered := (q.buffered ++ [r]).drop 1 } :=
      ⟨h.isOpen, h.capacity, by rw [h.buffered]; rfl, h.granted, h.waiting, h.outstanding⟩
    exact hrest.popped _

end Queue

namespace Worker

variable {w : Worker} {q : Queue} {allowance : Nat}

/-- A worker takes the next frame when it has a turn, and does not wait for it. -/
structure Prompt (w : Worker) : Prop where
  phase : w.phase = .starting ∨ w.phase = .ready
  source : w.reader.source.Ready

/-- A turn after which a worker goes on, or has ended for a reason that lies in the connection. -/
structure Turn.Prompt (t : Turn) : Prop where
  signalled : t.events.contains .signalled = false
  next : (∃ v, t.next = .goesOn v ∧ v.Prompt) ∨
    ∃ k, t.next = .ended k ∧ k.summary.reason ≠ .timeout ∧ k.summary.reason ≠ .queue
  queue : (t.queue.drain 1).1.Roomy

theorem prompt_takeFrame (h : w.reader.source.Ready) (hq : q.Roomy) (now deadline : Instant)
    (hallowance : 0 < allowance) : (w.takeFrame now deadline q allowance).Prompt := by
  have hnext := Reader.prompt_next now (w.newest? q) h allowance
  unfold takeFrame
  generalize w.reader.next now (w.newest? q) allowance = result at *
  simp only [hnext.signalled, hnext.allowance]
  cases harrival : result.arrival with
  | frame frame =>
      cases frame with
      | record payload =>
          obtain ⟨q', hpush, hroomy⟩ := hq.push now ⟨payload, w.peer, w.connection, w.records⟩
          have hgo : ¬ (q.backpressure = .wait ∧ allowance = 0) := fun hspent => Nat.ne_of_gt hallowance hspent.2
          simp only [handleRecord, if_neg hgo, hpush]
          exact ⟨rfl, .inl ⟨_, rfl, .inr rfl, hnext.rest⟩, hroomy⟩
      | malformed unit =>
          simp only [handleMalformed]
          split
          · exact ⟨rfl, .inl ⟨_, rfl, .inr rfl, hnext.rest⟩, hq.drain 1⟩
          · exact ⟨rfl, .inr ⟨_, rfl, by simp, by simp⟩, hq.drain 1⟩
  | ended => exact ⟨rfl, .inr ⟨_, rfl, by simp, by simp⟩, hq.drain 1⟩
  | failed cause =>
      cases cause with
      | io cause => exact ⟨rfl, .inr ⟨_, rfl, by simp, by simp⟩, hq.drain 1⟩
      | desync reason => exact ⟨rfl, .inr ⟨_, rfl, by simp, by simp⟩, hq.drain 1⟩
  | blocked => exact absurd harrival hnext.arrival.1
  | spent => exact absurd harrival hnext.arrival.2

theorem prompt_step (h : w.Prompt) (hq : q.Roomy) (now : Instant) (hallowance : 0 < allowance) :
    (w.step now false q allowance).Prompt := by
  unfold Worker.step
  rcases h.phase with hphase | hphase
  · rw [hphase]
    exact ⟨rfl, .inl ⟨_, rfl, .inr rfl, h.source⟩, hq.drain 1⟩
  · rw [hphase]
    simp only [begin, if_neg (Nat.ne_of_gt hallowance)]
    exact prompt_takeFrame h.source hq now _ hallowance

end Worker

/-! ## The end of a prompt run -/

namespace Stint

variable {a : Assignment} {s : Stint}

/-- A stint in which nobody ever has to wait. -/
structure Prompt (s : Stint) : Prop where
  closing : s.closing = none
  running : s.stopping = false
  worker : s.worker.Prompt
  queue : s.queue.Roomy

/-- The worker has a turn, and the consumer takes out what it has brought. -/
def round : List Move :=
  [.turn ⟨0⟩ 1, .other (.drain 1)]

theorem ticket?_of_prompt {w : Worker} (h : w.Prompt) : w.ticket? = none := by
  unfold Worker.ticket?
  rcases h.phase with hphase | hphase
  · rw [hphase]
  · rw [hphase]

theorem Prompt.run_round (h : s.Prompt) :
    (s.run round).stopping = false ∧
      (((s.run round).Prompt ∧ (s.run round).book.progress = s.book.progress + 1) ∨
        ∃ k, (s.run round).closing = some k ∧ k.summary.reason ≠ .timeout ∧ k.summary.reason ≠ .queue) := by
  have hprompt := Worker.prompt_step h.worker h.queue ⟨0⟩ Nat.one_pos
  have hturn : s.step (.turn ⟨0⟩ 1) = s.turn ⟨0⟩ 1 := if_neg (by rw [h.closing]; nofun)
  have hdrain : ∀ v : Stint, v.worker.ticket? = none →
      v.step (.other (.drain 1)) = { v with queue := (v.queue.drain 1).1 } := by
    intro v hv
    exact if_neg (by rw [hv]; nofun)
  unfold Stint.round Stint.run
  simp only [List.foldl_cons, List.foldl_nil, hturn]
  unfold Stint.turn
  rw [h.running]
  generalize s.worker.step ⟨0⟩ false s.queue 1 = t at *
  obtain ⟨hsignalled, hnext, hqueue⟩ := hprompt
  rcases hnext with ⟨v, hv, hworker⟩ | ⟨k, hk, hreason⟩
  · rw [hdrain _ (by simp only [hv]; exact ticket?_of_prompt hworker)]
    simp only [hv, hsignalled]
    exact ⟨rfl, .inl ⟨⟨rfl, rfl, hworker, hqueue⟩, by simp only [Book.after, hv]; rfl⟩⟩
  · rw [hdrain _ (by simp only [hk]; exact ticket?_of_prompt h.worker)]
    simp only [hk, hsignalled]
    exact ⟨rfl, .inr ⟨k, rfl, hreason⟩⟩

/-- Rounds go on until the connection is closed, since there are only so many frames. -/
theorem Prompt.closes (h : s.Prompt) (hsound : s.Sound a) :
    ∃ moves k, (s.run moves).closing = some k ∧ (s.run moves).stopping = false ∧ k.summary.reason ≠ .timeout ∧
      k.summary.reason ≠ .queue := by
  induction hleft : a.frames.length + 1 - s.book.progress generalizing s with
  | zero =>
      obtain ⟨hrunning, ⟨-, hprogress⟩ | ⟨k, hk, hreason⟩⟩ := h.run_round
      · have hle := (hsound.run round).progress
        omega
      · exact ⟨round, k, hk, hrunning, hreason⟩
  | succ n ih =>
      obtain ⟨hrunning, ⟨hprompt, hprogress⟩ | ⟨k, hk, hreason⟩⟩ := h.run_round
      · obtain ⟨moves, k, hk, hrest⟩ := ih hprompt (hsound.run round) (by omega)
        refine ⟨round ++ moves, k, ?_⟩
        rw [run_append]
        exact ⟨hk, hrest⟩
      · exact ⟨round, k, hk, hrunning, hreason⟩

theorem prompt_start (o : QueueOptions) (h : ∀ step ∈ a.steps, step.isReady) : (start a o).Prompt :=
  ⟨rfl, rfl, ⟨.inl rfl, h⟩, Queue.roomy_start o⟩

theorem Sound.results_of_reason (h : s.Sound a) {k : Closing} (hk : s.closing = some k)
    (hreason : k.summary.reason ≠ .queue) : ∀ result ∈ s.book.results, result = .taken := by
  obtain ⟨stopping, ps, failure, -, hclosed⟩ := h.ended k hk
  have hcause := hclosed.cause
  have hresults := hclosed.results
  cases failure with
  | none =>
      rw [hresults]
      intro result hresult
      exact List.eq_of_mem_replicate (List.append_nil _ ▸ hresult)
  | some f =>
      have hqueue : k.summary.reason = .queue := by
        generalize k.summary.reason = reason at hcause
        generalize k.error = error at hcause
        generalize k.summary.discarded = discarded at hcause
        cases hcause
        rfl
      exact absurd hqueue hreason

/-- When no signal to shut down is given, no frame comes too late and all pushes succeed, the frames of a connection
tell what becomes of it. It goes on after at most so many turns, and where reading never has to wait there is such a
run to its end. -/
theorem outcome_of_frames (a : Assignment) (o : QueueOptions) :
    (∀ moves, let s := (start a o).run moves
      s.book.progress ≤ a.frames.length + 1 ∧
        ∀ k, s.closing = some k → s.stopping = false → k.summary.reason ≠ .timeout →
          (∀ result ∈ s.book.results, result = .taken) → a.Outcome s.book.entered k) ∧
      ((∀ step ∈ a.steps, step.isReady) → ∃ moves k, let s := (start a o).run moves
        s.closing = some k ∧ s.stopping = false ∧ k.summary.reason ≠ .timeout ∧
          ∀ result ∈ s.book.results, result = .taken) := by
  refine ⟨fun moves => ?_, fun hready => ?_⟩
  · have hsound := (sound_start a o).run moves
    exact ⟨hsound.progress, fun k hk hrunning hreason hall => hsound.outcome hk hrunning hreason hall⟩
  · obtain ⟨moves, k, hk, hrunning, htime, hqueue⟩ := (prompt_start o hready).closes (sound_start a o)
    have hsound := (sound_start a o).run moves
    exact ⟨moves, k, hk, hrunning, htime, hsound.results_of_reason hk hqueue⟩

end Stint

end LogIntake
