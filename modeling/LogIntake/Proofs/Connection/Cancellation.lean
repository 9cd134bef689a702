import LogIntake.Proofs.Connection.Sound

/-!
# The signal to shut down

A worker looks for the signal to shut down before it waits for a frame, and not while it does. Once it has been
given, no turn takes a frame any more: the worker finishes the push it is at and closes the connection. Before
and after, every frame that has been taken is accounted for.
-/

namespace LogIntake

namespace Stint

/-! ## Accounts -/

/-- The record that the worker is about to push. -/
def held (s : Stint) : Option Bytes :=
  match s.closing, s.worker.phase with
  | none, .holding payload => some payload
  | _, _ => none

/-- Whether a push of the worker waits. -/
def waits (s : Stint) : Bool :=
  s.closing.isNone && s.worker.ticket?.isSome

/-- Every frame taken is accounted for: each record has been pushed once, or is just about to be, and each
malformed unit has been reported. Only the last push may have failed. -/
structure Accounted (a : Assignment) (s : Stint) : Prop where
  frames : s.book.frames <+: a.frames
  reported : s.book.reported = units s.book.frames
  offered : a.records (payloads s.book.frames) = s.book.offered ++ s.held.toList.map (a.record s.book.offered.length)
  results : s.book.offered.length = s.book.results.length + s.waits.toNat
  taken : ∀ result ∈ s.book.results.dropLast, result = .taken
  entered : s.book.entered = s.book.offered.take (s.book.results.count .taken)
  isPrefix : s.book.entered <+: a.records (payloads a.frames)
  closed : ∀ k, s.closing = some k →
    k.summary.records = s.book.entered.length ∧ k.summary.malformed = s.book.reported.length

/-- A connection has been closed because of the signal, or because its last push has failed. -/
def CutShort (s : Stint) (k : Closing) : Prop :=
  (k.summary.reason = .shutdown ∧ k.error = none ∧ ∀ result ∈ s.book.results, result = .taken) ∨
    ∃ e, k.summary.reason = .queue ∧ k.error = some (.queue e) ∧ s.book.results.getLast? = some (.failed e)

variable {a : Assignment} {s : Stint} {k : Closing}

/-- Pushes that have succeeded, but for the last one perhaps. -/
def succeeded (n : Nat) (failure : Option PushError) : List PushResult :=
  List.replicate n .taken ++ failure.toList.map .failed

theorem count_succeeded (n : Nat) (failure : Option PushError) : (succeeded n failure).count .taken = n := by
  rw [succeeded, List.count_append, List.count_replicate_self]
  cases failure with
  | none => rfl
  | some e => rfl

theorem taken_of_mem_dropLast {n : Nat} {failure : Option PushError} {result : PushResult}
    (h : result ∈ (succeeded n failure).dropLast) : result = .taken := by
  unfold succeeded at h
  cases failure with
  | none =>
      rw [Option.toList_none, List.map_nil, List.append_nil] at h
      exact List.eq_of_mem_replicate ((List.dropLast_sublist _).subset h)
  | some e =>
      rw [Option.toList_some, List.map_singleton, List.dropLast_concat] at h
      exact List.eq_of_mem_replicate h

theorem take_records (a : Assignment) (ps more : List Bytes) :
    (a.records (ps ++ more)).take ps.length = a.records ps := by
  obtain ⟨rest, hrest⟩ := a.records_isPrefix (List.prefix_append ps more)
  rw [← hrest, ← a.length_records ps, List.take_left]

/-- A book that has these payloads in the queue and the records of `more` behind them in hand. -/
structure Tallies (a : Assignment) (b : Book) (ps more : List Bytes) (failure : Option PushError) : Prop where
  frames : b.frames <+: a.frames
  reported : b.reported = units b.frames
  payloads : LogIntake.payloads b.frames = ps ++ more
  entered : b.entered = a.records ps
  results : b.results = succeeded ps.length failure

variable {b : Book} {ps more : List Bytes} {failure : Option PushError}

theorem Tallies.entered_eq (h : Tallies a b ps more failure) {offered : List Bytes}
    (hoffered : b.offered = a.records (ps ++ offered)) : b.entered = b.offered.take (b.results.count .taken) := by
  rw [h.results, count_succeeded, hoffered, take_records, h.entered]

theorem Tallies.isPrefix (h : Tallies a b ps more failure) : b.entered <+: a.records (LogIntake.payloads a.frames) := by
  have hps : ps <+: LogIntake.payloads b.frames := by
    rw [h.payloads]
    exact List.prefix_append ..
  rw [h.entered]
  exact a.records_isPrefix (hps.trans (payloads_isPrefix h.frames))

theorem Tallies.taken (h : Tallies a b ps more failure) (result : PushResult)
    (hresult : result ∈ b.results.dropLast) : result = .taken := by
  rw [h.results] at hresult
  exact taken_of_mem_dropLast hresult

theorem tallies_of_serving {w : Worker} {hand : Option Bytes} (h : w.Serving a b ps hand) :
    Tallies a b ps hand.toList none := by
  refine ⟨h.along.isPrefix, h.reported, h.taken, h.entered, ?_⟩
  rw [h.results]
  exact (List.append_nil _).symm

theorem tallies_of_closed {stopping : Bool} {failure : Option (Bytes × PushError)}
    (h : Worker.Closed a stopping b ps failure k) :
    Tallies a b ps (failure.toList.map (·.1)) (failure.map (·.2)) := by
  refine ⟨h.frames, h.reported, h.taken, h.entered, ?_⟩
  rw [h.results, succeeded]
  cases failure with
  | none => rfl
  | some f => rfl

theorem records_append (a : Assignment) (ps : List Bytes) (next : Option Bytes) :
    a.records (ps ++ next.toList) = a.records ps ++ next.toList.map (a.record (a.records ps).length) := by
  cases next with
  | none => simp only [Option.toList_none, List.append_nil, List.map_nil]
  | some payload =>
      rw [Option.toList_some, a.records_concat, a.length_records]
      rfl

theorem Tallies.accounted (h : Tallies a s.book ps more failure) {offered : List Bytes}
    (hoffered : s.book.offered = a.records (ps ++ offered)) (hmore : more = offered ++ s.held.toList)
    (hresults : offered.length = failure.toList.length + s.waits.toNat)
    (hclosed : ∀ k, s.closing = some k →
      k.summary.records = ps.length ∧ k.summary.malformed = s.book.reported.length) : s.Accounted a := by
  refine ⟨h.frames, h.reported, ?_, ?_, h.taken, h.entered_eq hoffered, h.isPrefix, fun k hk => ?_⟩
  · rw [h.payloads, hmore, ← List.append_assoc, records_append, hoffered]
  · rw [hoffered, a.length_records, List.length_append, hresults, h.results, succeeded, List.length_append,
      List.length_replicate, List.length_map, Nat.add_assoc]
  · obtain ⟨hrecords, hmalformed⟩ := hclosed k hk
    exact ⟨by rw [hrecords, h.entered, a.length_records], hmalformed⟩

theorem Sound.accounted (h : s.Sound a) : s.Accounted a := by
  cases hclosing : s.closing with
  | some k =>
      obtain ⟨stopping, ps, failure, -, hclosed⟩ := h.ended k hclosing
      have htallies := tallies_of_closed hclosed
      have hoffered := hclosed.offered
      rw [htallies.payloads] at hoffered
      refine htallies.accounted hoffered ?_ ?_ fun k' hk' => ?_
      · rw [held, hclosing]
        exact (List.append_nil _).symm
      · rw [waits, hclosing]
        cases failure with
        | none => rfl
        | some f => rfl
      · obtain rfl := Option.some.inj (hclosing.symm.trans hk')
        exact ⟨hclosed.records, hclosed.malformed⟩
  | none =>
      obtain ⟨ps, hand, hserving, hstands, -⟩ := h.going hclosing
      have htallies := tallies_of_serving hserving
      have hgoing : ∀ k, s.closing = some k →
          k.summary.records = ps.length ∧ k.summary.malformed = s.book.reported.length := by
        intro k hk
        rw [hclosing] at hk
        cases hk
      have hidle : hand = none → s.book.offered = a.records ps → s.held = none → s.waits = false →
          s.Accounted a := by
        intro hhand hoffered hheld hwaits
        subst hhand
        rw [← List.append_nil ps] at hoffered
        exact htallies.accounted hoffered (by rw [hheld]; rfl) (by rw [hwaits]; rfl) hgoing
      unfold Worker.Stands at hstands
      unfold held waits Worker.ticket? at hidle
      rw [hclosing] at hidle
      cases hphase : s.worker.phase with
      | starting =>
          rw [hphase] at hstands hidle
          exact hidle hstands.1 hstands.2.1 rfl rfl
      | ready =>
          rw [hphase] at hstands hidle
          exact hidle hstands.1 hstands.2 rfl rfl
      | waiting deadline =>
          rw [hphase] at hstands hidle
          exact hidle hstands.1 hstands.2 rfl rfl
      | holding payload =>
          rw [hphase] at hstands
          obtain ⟨rfl, hoffered⟩ := hstands
          rw [← List.append_nil ps] at hoffered
          refine htallies.accounted hoffered ?_ ?_ hgoing
          · rw [held, hclosing, hphase]
            rfl
          · rw [waits, hclosing, Worker.ticket?, hphase]
            rfl
      | pushing ticket =>
          rw [hphase] at hstands
          obtain ⟨payload, rfl, hoffered, -, -⟩ := hstands
          refine htallies.accounted hoffered ?_ ?_ hgoing
          · rw [held, hclosing, hphase]
            rfl
          · rw [waits, hclosing, Worker.ticket?, hphase]
            rfl

/-! ## After the signal -/

theorem frame?_of_told (w : Worker) (now : Instant) (q : Queue) (allowance : Nat) :
    w.frame? now true q allowance = none := by
  unfold Worker.frame? Worker.look?
  cases w.phase with
  | ready => rw [if_pos (.inr rfl)]; rfl
  | waiting deadline => rw [if_pos (.inr rfl)]; rfl
  | _ => rfl

theorem cutShort_of_closed {failure : Option (Bytes × PushError)} (h : Worker.Closed a true s.book ps failure k) :
    s.CutShort k := by
  have hresults := h.results
  have hcause := h.cause
  obtain ⟨⟨connection, peer, records, malformed, discarded, reason⟩, error⟩ := k
  cases failure with
  | none =>
      cases hcause with
      | shutdown =>
          refine .inl ⟨rfl, rfl, fun result hresult => ?_⟩
          rw [hresults] at hresult
          exact List.eq_of_mem_replicate (List.append_nil _ ▸ hresult)
      | eof hrunning => cases hrunning
      | io _ hrunning => cases hrunning
      | framing _ hrunning => cases hrunning
      | decode _ _ hrunning => cases hrunning
      | timeout hrunning => cases hrunning
  | some f =>
      cases hcause with
      | queue e =>
          refine .inr ⟨_, rfl, rfl, ?_⟩
          rw [hresults]
          exact List.getLast?_concat

theorem told_step (h : s.stopping = true) (m : Move) : (s.step m).stopping = true := by
  cases m with
  | turn now allowance =>
      show Stint.stopping (if s.closing.isSome then s else s.turn now allowance) = true
      split
      · exact h
      · exact Bool.or_eq_true_iff.mpr (.inl h)
  | other op =>
      show Stint.stopping (if _ then s else _) = true
      split
      · exact h
      · exact h
  | leave => exact h
  | signal => rfl

/-- What has become of a stint at some time after the signal. -/
structure Cut (s s' : Stint) : Prop where
  told : s'.stopping = true
  frames : s'.book.frames = s.book.frames
  entered : s.book.entered <+: s'.book.entered
  closed : s.closing.isSome → s'.closing = s.closing ∧ s'.book = s.book
  closing : s.closing = none → ∀ k, s'.closing = some k → s'.CutShort k

theorem cut_refl (htold : s.stopping = true) : s.Cut s := by
  refine ⟨htold, rfl, List.prefix_refl _, fun _ => ⟨rfl, rfl⟩, fun hopen k hk => ?_⟩
  rw [hopen] at hk
  cases hk

variable {s' : Stint}

theorem Cut.step (h : s.Cut s') (hsound : s'.Sound a) (m : Move) : s.Cut (s'.step m) := by
  cases m with
  | turn now allowance =>
      show s.Cut (if s'.closing.isSome then s' else s'.turn now allowance)
      split
      · exact h
      · next hopen =>
          have hgoing := Option.not_isSome_iff_eq_none.mp hopen
          refine ⟨Bool.or_eq_true_iff.mpr (.inl h.told), ?_, h.entered.trans (List.prefix_append ..),
            fun hclosed => ?_, fun _ k hk => ?_⟩
          · show s'.book.frames ++ (s'.worker.frame? now s'.stopping s'.queue allowance).toList = s.book.frames
            rw [h.told, frame?_of_told, h.frames]
            exact List.append_nil _
          · rw [(h.closed hclosed).1] at hopen
            exact absurd hclosed hopen
          · have hleads := hsound.leads hgoing now allowance
            obtain ⟨ps, failure, hclosed⟩ := hleads.ended hk
            rw [h.told] at hclosed
            exact cutShort_of_closed hclosed
  | other op =>
      show s.Cut (if _ then s' else _)
      split
      · exact h
      · exact ⟨h.told, h.frames, h.entered, h.closed, h.closing⟩
  | leave => exact ⟨h.told, h.frames, h.entered, h.closed, h.closing⟩
  | signal => exact ⟨rfl, h.frames, h.entered, h.closed, h.closing⟩

theorem Cut.run (h : s.Cut s') (hsound : s'.Sound a) (moves : List Move) : s.Cut (s'.run moves) := by
  induction moves generalizing s' with
  | nil => exact h
  | cons m moves ih => exact ih (h.step hsound m) (hsound.step m)

theorem Accounted.length_payloads (h : s.Accounted a) :
    (payloads s.book.frames).length = s.book.offered.length + s.held.toList.length := by
  have hlength := congrArg List.length h.offered
  rwa [a.length_records, List.length_append, List.length_map] at hlength

theorem Accounted.length_entered (h : s.Accounted a) : s.book.entered.length ≤ (payloads s.book.frames).length := by
  have hlength := h.length_payloads
  rw [h.entered, List.length_take]
  omega

/-- What a worker has taken and not pushed is in its hand. -/
theorem Sound.length_payloads (h : s.Sound a) (hopen : s.closing = none) :
    (payloads s.book.frames).length = s.book.entered.length + s.held.toList.length + s.waits.toNat := by
  obtain ⟨ps, hand, hserving, -, -⟩ := h.going hopen
  have hentered : s.book.entered.length = ps.length := by
    rw [hserving.entered, a.length_records]
  have hresults : s.book.results.length = ps.length := by
    rw [hserving.results, List.length_replicate]
  have hoffered := h.accounted.results
  have hlength := h.accounted.length_payloads
  omega

/-- After the signal no more records enter the queue than the one in hand. -/
theorem Cut.length_entered (h : s.Cut s') (hsound : s.Sound a) (hsound' : s'.Sound a) :
    s'.book.entered.length ≤ s.book.entered.length + s.held.toList.length + s.waits.toNat := by
  cases hclosing : s.closing with
  | some k =>
      rw [(h.closed (by rw [hclosing]; rfl)).2]
      omega
  | none =>
      have hlength := hsound.length_payloads hclosing
      have hle := hsound'.accounted.length_entered
      rw [h.frames, hlength] at hle
      exact hle

/-! ## The way to the end -/

/-- The connection is closed, or a push of its worker waits. -/
def Resting (s : Stint) : Prop :=
  s.closing.isSome ∨ ∃ ticket, s.worker.phase = .pushing ticket ∧ (s.queue.resume ticket).2 = none

/-- After how many turns a worker that has been told to shut down is there. -/
def distance (s : Stint) : Nat :=
  match s.closing, s.worker.phase with
  | some _, _ => 0
  | none, .ready | none, .waiting _ => 1
  | none, .starting | none, .pushing _ => 2
  | none, .holding _ => 3

theorem nearer_turn (hopen : s.closing = none) (htold : s.stopping = true) (now : Instant) (n : Nat) :
    (s.turn now (n + 1)).Resting ∨ (s.turn now (n + 1)).distance < s.distance := by
  unfold Stint.turn
  rw [htold]
  unfold Worker.step
  cases hphase : s.worker.phase with
  | starting =>
      refine .inr ?_
      rw [distance, distance, hopen, hphase]
      exact Nat.lt_succ_self 1
  | ready => exact .inl (.inl rfl)
  | waiting deadline => exact .inl (.inl rfl)
  | holding payload =>
      have hgo : ¬ (s.queue.backpressure = .wait ∧ n + 1 = 0) := fun hspent => Nat.succ_ne_zero n hspent.2
      simp only [Worker.handleRecord, if_neg hgo]
      cases hpush : s.queue.push now ⟨payload, s.worker.peer, s.worker.connection, s.worker.records⟩ with
      | mk q' p =>
          cases p with
          | done result =>
              cases result with
              | taken =>
                  refine .inr ?_
                  rw [distance, distance, hopen, hphase]
                  exact Nat.lt_of_lt_of_le (Nat.lt_succ_self 1) (Nat.le_succ 2)
              | failed e => exact .inl (.inl rfl)
          | waits ticket =>
              refine .inr ?_
              rw [distance, distance, hopen, hphase]
              exact Nat.lt_succ_self 2
  | pushing ticket =>
      simp only
      cases hresume : s.queue.resume ticket with
      | mk q' result? =>
          cases result? with
          | none => exact .inl (.inr ⟨ticket, hphase, congrArg Prod.snd hresume⟩)
          | some result =>
              cases result with
              | taken =>
                  refine .inr ?_
                  rw [distance, distance, hopen, hphase]
                  exact Nat.lt_succ_self 1
              | failed e => exact .inl (.inl rfl)

theorem step_of_waits {w : Worker} {q : Queue} {ticket : Nat} (hphase : w.phase = .pushing ticket)
    (hwaits : (q.resume ticket).2 = none) (now : Instant) (stopping : Bool) (allowance : Nat) :
    w.step now stopping q allowance = ⟨q, .blocked w, [], allowance⟩ := by
  unfold Worker.step
  rw [hphase]
  simp only
  split
  · next q' result hresume =>
      rw [hresume] at hwaits
      cases hwaits
  · rfl

theorem Resting.turn (h : s.Resting) (now : Instant) (n : Nat) : (s.step (.turn now (n + 1))).Resting := by
  show Resting (if s.closing.isSome then s else s.turn now (n + 1))
  split
  · exact h
  · next hopen =>
      rcases h with hclosed | ⟨ticket, hphase, hwaits⟩
      · exact absurd hclosed hopen
      · unfold Stint.turn
        rw [step_of_waits hphase hwaits]
        exact .inr ⟨ticket, hphase, hwaits⟩

/-- Turns, one after the other. -/
def turns (times : List (Instant × Nat)) : List Move :=
  times.map fun t => .turn t.1 (t.2 + 1)

theorem closed_of_distance (h : s.distance = 0) : s.closing.isSome := by
  unfold distance at h
  cases hclosing : s.closing with
  | some k => rfl
  | none =>
      rw [hclosing] at h
      cases hphase : s.worker.phase with
      | _ =>
          rw [hphase] at h
          cases h

/-- A few turns are enough for a worker that has been told to shut down. -/
theorem resting_of_turns (htold : s.stopping = true) {times : List (Instant × Nat)}
    (hnear : s.Resting ∨ s.distance ≤ times.length) : (s.run (turns times)).Resting := by
  induction times generalizing s with
  | nil =>
      rcases hnear with hresting | hzero
      · exact hresting
      · exact .inl (closed_of_distance (Nat.le_zero.mp hzero))
  | cons t times ih =>
      refine ih (told_step htold _) ?_
      rcases hnear with hresting | hnear
      · exact .inl (hresting.turn t.1 t.2)
      · cases hclosing : s.closing with
        | some k =>
            have hclosed : s.Resting := .inl (by rw [hclosing]; rfl)
            exact .inl (hclosed.turn t.1 t.2)
        | none =>
            have hstep : s.step (.turn t.1 (t.2 + 1)) = s.turn t.1 (t.2 + 1) := if_neg (by rw [hclosing]; nofun)
            rw [hstep]
            rcases nearer_turn hclosing htold t.1 t.2 with hresting | hnearer
            · exact .inl hresting
            · refine .inr (Nat.le_of_lt_succ (Nat.lt_of_lt_of_le hnearer ?_))
              exact hnear

theorem distance_le (s : Stint) : s.distance ≤ 3 := by
  unfold distance
  split
  · exact Nat.zero_le 3
  · exact Nat.le_add_left 1 2
  · exact Nat.le_add_left 1 2
  · exact Nat.le_add_left 2 1
  · exact Nat.le_add_left 2 1
  · exact Nat.le_refl 3

/-- A push without a result waits for a place. -/
theorem exists_waiting {q : Queue} {ticket : Nat} (h : ticket ∈ q.tickets) (hnone : (q.resume ticket).2 = none) :
    ∃ v ∈ q.waiting, v.ticket = ticket := by
  unfold Queue.resume at hnone
  split at hnone
  · cases hnone
  · next hgranted =>
      split at hnone
      · cases hnone
      · next hfailed =>
          rw [Queue.tickets, Queue.pending, List.map_append, List.append_assoc] at h
          rcases List.mem_append.mp h with h | h
          · obtain ⟨v, hv, hticket⟩ := List.mem_map.mp h
            exact absurd (beq_iff_eq.mpr hticket) (List.find?_eq_none.mp hgranted v hv)
          · rcases List.mem_append.mp h with h | h
            · exact List.mem_map.mp h
            · obtain ⟨p, hp, hticket⟩ := List.mem_map.mp h
              have hne := List.lookup_eq_none_iff.mp hfailed p hp
              rw [hticket] at hne
              simp at hne

theorem Sound.waits_of_resting (h : s.Sound a) (hresting : s.Resting) :
    s.closing.isSome ∨ (s.waits = true ∧ ∃ v ∈ s.queue.waiting, s.worker.ticket? = some v.ticket) := by
  cases hclosing : s.closing with
  | some k => exact .inl rfl
  | none =>
      rcases hresting with hclosed | ⟨ticket, hphase, hnone⟩
      · rw [hclosing] at hclosed
        cases hclosed
      · obtain ⟨ps, hand, -, hstands, -⟩ := h.going hclosing
        unfold Worker.Stands at hstands
        rw [hphase] at hstands
        obtain ⟨payload, -, -, hticket, -⟩ := hstands
        obtain ⟨v, hv, rfl⟩ := exists_waiting hticket hnone
        have hown : s.worker.ticket? = some v.ticket := by
          rw [Worker.ticket?, hphase]
        refine .inr ⟨?_, v, hv, hown⟩
        rw [waits, hclosing, hown]
        rfl

/-- A turn takes at most one frame, and nothing else does. -/
theorem book_step (s : Stint) (m : Move) : (s.step m).book.frames.length ≤ s.book.frames.length + 1 ∧
    ((∀ now allowance, m ≠ .turn now allowance) → (s.step m).book = s.book) := by
  cases m with
  | turn now allowance =>
      refine ⟨?_, fun hne => absurd rfl (hne now allowance)⟩
      show (Stint.book (if s.closing.isSome then s else s.turn now allowance)).frames.length ≤ _
      split
      · exact Nat.le_succ _
      · show (s.book.frames ++ (s.worker.frame? now s.stopping s.queue allowance).toList).length ≤ _
        rw [List.length_append]
        cases s.worker.frame? now s.stopping s.queue allowance with
        | none => exact Nat.le_succ _
        | some frame => exact Nat.le_refl _
  | other op =>
      have hbook : (s.step (.other op)).book = s.book := by
        show Stint.book (if _ then s else _) = s.book
        split
        · rfl
        · rfl
      exact ⟨by rw [hbook]; exact Nat.le_succ _, fun _ => hbook⟩
  | leave => exact ⟨Nat.le_succ _, fun _ => rfl⟩
  | signal => exact ⟨Nat.le_succ _, fun _ => rfl⟩

/-- All frames that a worker has taken are accounted for at any time. From the signal to shut down on it takes no
frame any more, at most the record in its hand enters the queue, and the connection is closed without an error or
with that of its last push. Three turns are enough for this, unless a push waits that the queue has still to end. -/
theorem cut_off (a : Assignment) (o : QueueOptions) (moves : List Move) :
    let s := (start a o).run moves
    s.Accounted a ∧
      (∀ m, (s.step m).book.frames.length ≤ s.book.frames.length + 1 ∧
        ((∀ now allowance, m ≠ .turn now allowance) → (s.step m).book = s.book)) ∧
      (s.stopping = true →
        (∀ more, let s' := s.run more
          s'.book.frames = s.book.frames ∧ s.book.entered <+: s'.book.entered ∧
            s'.book.entered.length ≤ s.book.entered.length + s.held.toList.length + s.waits.toNat ∧
            (s.closing = none → ∀ k, s'.closing = some k → s'.CutShort k)) ∧
          ∀ times, 3 ≤ times.length → let s' := s.run (turns times)
            s'.closing.isSome ∨
              (s'.waits = true ∧ ∃ v ∈ s'.queue.waiting, s'.worker.ticket? = some v.ticket)) := by
  intro s
  have hsound : s.Sound a := (sound_start a o).run moves
  refine ⟨hsound.accounted, book_step s, fun htold => ⟨fun more => ?_, fun times hlength => ?_⟩⟩
  · have hcut := (cut_refl htold).run hsound more
    exact ⟨hcut.frames, hcut.entered, hcut.length_entered hsound (hsound.run more), hcut.closing⟩
  · refine (hsound.run _).waits_of_resting (resting_of_turns htold (.inr ?_))
    exact Nat.le_trans (distance_le s) hlength

/-- The signal may come while a worker waits for a frame, and the frame that then comes is served: here the signal is
given before the peer has sent anything. -/
theorem record_after_signal :
    let a : Assignment :=
      { connection := 1, peer := .v4 ⟨192, 0, 2, 10⟩ 40000, options := {}
        steps := [.signal, .data [60, 114, 101, 99, 62, 65, 60, 47, 114, 101, 99, 62]] }
    let s := (start a {}).run (turns [(⟨0⟩, 127), (⟨0⟩, 127)])
    (Source.mk (a.steps.takeWhile (· ≠ .signal)) none).stream = [] ∧ s.stopping = true ∧
      s.book.frames = [.record [65]] ∧ s.book.entered = a.records [[65]] ∧
      ((s.turn ⟨0⟩ 128).closing.map fun k => (k.summary.reason, k.summary.records)) = some (.shutdown, 1) := by
  decide +kernel

end Stint

end LogIntake
