import LogIntake.Proofs.Connection.Attention
import LogIntake.Proofs.Connection.Cancellation
import LogIntake.Proofs.Connection.Outcome

/-!
# What a worker does and what it tells of it

Others see a worker begin pushes, learn their results, report malformed units and, at last, close its connection
(`Deed`). What the closing tells is coherent in itself and agrees with all that the worker has done before
(`Coherent`). A book keeps what has been done, but not in which order: here it is the order that counts.
-/

namespace LogIntake

/-- An error is of the kind that goes with a reason, and tells of this peer if it tells of one. -/
def CloseReason.Suits (peer : SocketAddress) (error : Option IntakeError) : CloseReason → Prop
  | .eof | .shutdown => error = none
  | .io => ∃ cause, error = some (.connection peer cause)
  | .decode => ∃ unit, error = some (.decode peer unit)
  | .framing => ∃ reason, error = some (.framing peer reason)
  | .timeout => ∃ waited, error = some (.readTimeout peer waited)
  | .queue => ∃ cause, error = some (.queue cause)

theorem CloseReason.Suits.error_eq_none_iff {peer : SocketAddress} {error : Option IntakeError} {reason : CloseReason}
    (h : reason.Suits peer error) : error = none ↔ reason.isGraceful = true := by
  cases reason with
  | eof => exact iff_of_true h rfl
  | shutdown => exact iff_of_true h rfl
  | _ =>
      obtain ⟨_, rfl⟩ := h
      exact iff_of_false (Option.some_ne_none _) Bool.false_ne_true

def PushResult.error? : PushResult → Option PushError
  | .failed e => some e
  | .taken => none

/-! ## Deeds -/

/-- What others see of a worker. -/
inductive Deed where
  /-- A push begins. -/
  | offers (r : Record)
  /-- A push has ended. -/
  | learns (result : PushResult)
  | reports (peer : SocketAddress) (unit : Malformed)
  | closes (k : Closing)
  deriving DecidableEq, Repr

namespace Deed

def result? : Deed → Option PushResult
  | .learns result => some result
  | _ => none

def report? : Deed → Option (SocketAddress × Malformed)
  | .reports peer unit => some (peer, unit)
  | _ => none

def closing? : Deed → Option Closing
  | .closes k => some k
  | _ => none

/-- Deeds after which a worker goes on: all but a push that fails and the closing of its connection. -/
def GoesOn : Deed → Prop
  | .learns result => result = .taken
  | .closes _ => False
  | _ => True

end Deed

/-- What a worker does in a step, in this order. -/
def Worker.deeds (w : Worker) (now : Instant) (stopping : Bool) (q : Queue) (allowance : Nat) : List Deed :=
  let t := w.step now stopping q allowance
  let op := w.operation now stopping q allowance
  (op.bind Queue.Operation.record?).toList.map .offers ++ (op.bind q.result?).toList.map .learns ++
    (t.events.filterMap Event.unit?).map (.reports w.peer) ++ t.next.closing?.toList.map .closes

namespace Worker

theorem results_deeds (w : Worker) (now : Instant) (stopping : Bool) (q : Queue) (allowance : Nat) :
    (w.deeds now stopping q allowance).filterMap Deed.result?
      = ((w.operation now stopping q allowance).bind q.result?).toList := by
  simp [deeds, Function.comp_def, Deed.result?]

theorem reports_deeds (w : Worker) (now : Instant) (stopping : Bool) (q : Queue) (allowance : Nat) :
    (w.deeds now stopping q allowance).filterMap Deed.report?
      = ((w.step now stopping q allowance).events.filterMap Event.unit?).map (Prod.mk w.peer) := by
  simp [deeds, Function.comp_def, Deed.report?]

theorem closings_deeds (w : Worker) (now : Instant) (stopping : Bool) (q : Queue) (allowance : Nat) :
    (w.deeds now stopping q allowance).filterMap Deed.closing?
      = (w.step now stopping q allowance).next.closing?.toList := by
  simp [deeds, Function.comp_def, Deed.closing?]

end Worker

/-- What the worker of a stint does in a move. -/
def Stint.deedsOf (s : Stint) : Stint.Move → List Deed
  | .turn now allowance => if s.closing.isSome then [] else s.worker.deeds now s.stopping s.queue allowance
  | _ => []

/-- What it does in a run. -/
def Stint.deeds (s : Stint) : List Stint.Move → List Deed
  | [] => []
  | m :: moves => s.deedsOf m ++ (s.step m).deeds moves

/-- A closing is coherent and agrees with what has been done: it is the last deed, and before it there is no other
one and no failed push, but for one that is the reason for it. -/
structure Coherent (a : Assignment) (ds : List Deed) (k : Closing) : Prop where
  graceful : k.error = none ↔ k.summary.reason.isGraceful = true
  suits : k.summary.reason.Suits a.peer k.error
  records : k.summary.records = (ds.filterMap Deed.result?).count .taken
  malformed : k.summary.malformed = (ds.filterMap Deed.report?).length
  strict : a.options.policy = .terminate → k.summary.malformed = if k.summary.reason = .decode then 1 else 0
  tail : 0 < k.summary.discarded → k.summary.reason = .eof
  last : ∃ (before : List Deed) (failure : Option PushError), (∀ d ∈ before, d.GoesOn) ∧
    ds = before ++ failure.toList.map (.learns ∘ .failed) ++ [.closes k] ∧
    ∀ e, failure = some e ↔ k.error = some (.queue e)

namespace Worker

variable {w : Worker} {now deadline : Instant} {stopping : Bool} {q q' : Queue} {framing : Framing} {limit : Nat}
  {p : Prospect} {allowance : Nat} {events : List Event} {a : Assignment}

/-! ## How turns end connections -/

/-- If a turn ends the connection, it reports a malformed unit only for that reason, and bytes are discarded only at
the end of the stream. -/
def Turn.Tidy (t : Turn) : Prop :=
  ∀ k, t.next.closing? = some k →
    (k.summary.reason ≠ .decode → t.events.filterMap Event.unit? = []) ∧
      (k.summary.discarded = 0 ∨ k.summary.reason = .eof)

theorem tidy_close {reason : CloseReason} {error : Option IntakeError} (hwhole : w.reader.decoder.discarded = 0)
    (hquiet : Quiet events) : Turn.Tidy ⟨q, w.close reason error, events, allowance⟩ := by
  intro k hk
  obtain rfl := Option.some.inj hk
  exact ⟨fun _ => hquiet.2, .inl hwhole⟩

theorem tidy_afterPush (hwhole : w.reader.decoder.discarded = 0) (hquiet : Quiet events) (result : PushResult) :
    (w.afterPush q events allowance result).Tidy := by
  cases result with
  | taken => exact fun k hk => nomatch hk
  | failed e => exact tidy_close hwhole hquiet

theorem tidy_handleRecord (hwhole : w.reader.decoder.discarded = 0) (hquiet : Quiet events) (payload : Bytes) :
    (w.handleRecord now q events allowance payload).Tidy := by
  unfold handleRecord
  split
  · exact fun k hk => nomatch hk
  · split
    · exact tidy_afterPush hwhole hquiet _
    · exact fun k hk => nomatch hk

theorem tidy_handleMalformed (hwhole : w.reader.decoder.discarded = 0) (unit : Malformed) :
    (w.handleMalformed q events allowance unit).Tidy := by
  unfold handleMalformed
  simp only
  split
  · exact fun k hk => nomatch hk
  · intro k hk
    obtain rfl := Option.some.inj hk
    exact ⟨fun hreason => absurd rfl hreason, .inl hwhole⟩

theorem tidy_await (hwhole : w.reader.decoder.discarded = 0) (hquiet : Quiet events) {next : Worker → Next}
    (hnext : ∀ v, (next v).closing? = none) : (w.await now deadline q events allowance next).Tidy := by
  unfold await
  split
  · exact tidy_close hwhole hquiet
  · intro k hk
    rw [hnext] at hk
    cases hk

theorem Finds.tidy {result : Reader.Result} {heard : Prospect.Heard} {t : Turn}
    (h : w.Finds now deadline q framing limit result heard t) : t.Tidy := by
  cases h with
  | record payload events arrival plays due quiet => exact tidy_handleRecord plays.discarded quiet payload
  | malformed unit events arrival plays => exact tidy_handleMalformed plays.discarded unit
  | ended events quiet =>
      intro k hk
      obtain rfl := Option.some.inj hk
      exact ⟨fun _ => quiet.2, .inr rfl⟩
  | failed cause events whole quiet => exact tidy_close (w := { w with reader := result.reader }) whole quiet
  | desync reason events whole quiet => exact tidy_close (w := { w with reader := result.reader }) whole quiet
  | blocked events arrival plays filling still quiet => exact tidy_await plays.discarded quiet fun _ => rfl
  | spent events arrival plays filling quiet => exact tidy_await plays.discarded quiet fun _ => rfl

theorem tidy_step (h : w.reader.Plays framing limit p) (now : Instant) (stopping : Bool) (q : Queue)
    (allowance : Nat) : (w.step now stopping q allowance).Tidy := by
  have hdoes := does_step h now stopping q allowance
  generalize w.frame? now stopping q allowance = taken at *
  generalize w.step now stopping q allowance = t at *
  cases hdoes with
  | starts => exact fun k hk => nomatch hk
  | spends => exact fun k hk => nomatch hk
  | waits => exact fun k hk => nomatch hk
  | stops => exact tidy_close h.discarded ⟨rfl, rfl⟩
  | finds looks spare running found => exact found.tidy
  | pushes payload => exact tidy_handleRecord h.discarded ⟨rfl, rfl⟩ payload
  | resumes ticket q' result => exact tidy_afterPush h.discarded ⟨rfl, rfl⟩ result

/-- A worker that does something to the queue has not taken a malformed unit in the same step. -/
theorem unit?_of_operation {op : Queue.Operation} (h : w.operation now stopping q allowance = some op) :
    (w.frame? now stopping q allowance).bind Frame.unit? = none := by
  unfold operation at h
  unfold frame?
  have hlook (look : Option Reader.Result)
      (hop : (look.bind fun result =>
        (result.arrival.frame?.bind Frame.payload?).bind (w.pushOf now q result.allowance)) = some op) :
      (look.bind (·.arrival.frame?)).bind Frame.unit? = none := by
    cases look with
    | none => rfl
    | some result =>
        simp only [Option.bind_some] at hop ⊢
        cases hframe : result.arrival.frame? with
        | none => rfl
        | some f =>
            cases f with
            | record payload => rfl
            | malformed unit =>
                rw [hframe] at hop
                cases hop
  cases hphase : w.phase with
  | holding payload =>
      rw [look?, hphase]
      rfl
  | pushing ticket =>
      rw [look?, hphase]
      rfl
  | _ =>
      rw [hphase] at h
      exact hlook _ h

theorem Cause.suits {frames : List Frame} {failure : Option PushError} {reason : CloseReason}
    {error : Option IntakeError} {tail : Nat} (h : Cause a stopping frames failure reason error tail) :
    reason.Suits a.peer error := by
  cases h with
  | eof => rfl
  | io cause => exact ⟨cause, rfl⟩
  | framing desync => exact ⟨desync.reason, rfl⟩
  | decode before unit => exact ⟨unit, rfl⟩
  | timeout => exact ⟨a.options.readTimeout, rfl⟩
  | queue e => exact ⟨e, rfl⟩
  | shutdown => rfl

theorem Cause.failure_iff {frames : List Frame} {failure : Option PushError} {reason : CloseReason}
    {error : Option IntakeError} {tail : Nat} (h : Cause a stopping frames failure reason error tail) (e : PushError) :
    failure = some e ↔ error = some (.queue e) := by
  cases h with
  | queue e' => simp
  | _ => simp

theorem Cause.units_of_decode {frames : List Frame} {failure : Option PushError} {error : Option IntakeError}
    {tail : Nat} (h : Cause a stopping frames failure .decode error tail) : (units frames).length = 1 := by
  cases h with
  | decode before unit _ _ hframes hrecords =>
      rw [hframes, units_append, units_of_records hrecords]
      rfl

end Worker

/-! ## Runs -/

namespace Stint

variable {a : Assignment} {s : Stint} {k : Closing}

/-- A turn reports the unit of the frame that it takes, if it is a malformed one. -/
theorem Sound.units_turn (h : s.Sound a) (hopen : s.closing = none) (now : Instant) (allowance : Nat) :
    (s.worker.step now s.stopping s.queue allowance).events.filterMap Worker.Event.unit?
      = units (s.worker.frame? now s.stopping s.queue allowance).toList := by
  have hafter : s.book.reported ++
        (s.worker.step now s.stopping s.queue allowance).events.filterMap Worker.Event.unit?
      = units (s.book.frames ++ (s.worker.frame? now s.stopping s.queue allowance).toList) :=
    (h.turn hopen now allowance).accounted.reported
  rw [units_append, h.accounted.reported] at hafter
  exact List.append_cancel_left hafter

/-- Before a push of a worker ends it reports nothing more. -/
theorem Sound.units_of_result (h : s.Sound a) (hopen : s.closing = none) (now : Instant) (allowance : Nat)
    {result : PushResult}
    (hresult : (s.worker.operation now s.stopping s.queue allowance).bind s.queue.result? = some result) :
    (s.worker.step now s.stopping s.queue allowance).events.filterMap Worker.Event.unit? = [] := by
  obtain ⟨op, hop, -⟩ := Option.bind_eq_some_iff.mp hresult
  have hunit := Worker.unit?_of_operation hop
  rw [h.units_turn hopen now allowance]
  cases hframe : s.worker.frame? now s.stopping s.queue allowance with
  | none => rfl
  | some f =>
      rw [hframe] at hunit
      exact List.filterMap_cons_none hunit

/-- The result that a turn learns is a failure if, and only if, the push that ends the connection has failed. -/
theorem Sound.error?_of_result (h : s.Sound a) (hopen : s.closing = none) (now : Instant) (allowance : Nat)
    {stopping : Bool} {ps : List Bytes} {failure : Option (Bytes × PushError)}
    (hclosed : Worker.Closed a stopping (s.turn now allowance).book ps failure k) :
    ((s.worker.operation now s.stopping s.queue allowance).bind s.queue.result?).bind PushResult.error?
      = failure.map (·.2) := by
  obtain ⟨before, hand, hserving, -, -⟩ := h.going hopen
  have hresults : s.book.results ++
        ((s.worker.operation now s.stopping s.queue allowance).bind s.queue.result?).toList
      = List.replicate ps.length .taken ++ failure.toList.map (.failed ·.2) := hclosed.results
  have htaken (n : Nat) : (List.replicate n PushResult.taken).filterMap PushResult.error? = [] :=
    List.filterMap_eq_nil_iff.mpr fun result hresult => List.eq_of_mem_replicate hresult ▸ rfl
  have herrors := congrArg (List.filterMap PushResult.error?) hresults
  rw [hserving.results, List.filterMap_append, List.filterMap_append, htaken, htaken] at herrors
  generalize (s.worker.operation now s.stopping s.queue allowance).bind s.queue.result? = result? at *
  cases result? with
  | none =>
      cases failure with
      | none => rfl
      | some f => cases herrors
  | some result =>
      cases result with
      | taken =>
          cases failure with
          | none => rfl
          | some f => cases herrors
      | failed e =>
          cases failure with
          | none => cases herrors
          | some f =>
              obtain rfl := List.head_eq_of_cons_eq herrors
              rfl

/-- A turn that does not end the connection learns no failure. -/
theorem Sound.error?_of_going (h : s.Sound a) (hopen : s.closing = none) (now : Instant) (allowance : Nat)
    (hgoing : (s.turn now allowance).closing = none) :
    ((s.worker.operation now s.stopping s.queue allowance).bind s.queue.result?).bind PushResult.error? = none := by
  obtain ⟨after, hand, hserving, -, -⟩ := (h.turn hopen now allowance).going hgoing
  cases hresult : (s.worker.operation now s.stopping s.queue allowance).bind s.queue.result? with
  | none => rfl
  | some result =>
      have hresults : (s.turn now allowance).book.results = s.book.results ++ [result] := by
        rw [← Option.toList_some, ← hresult]
        rfl
      have hmem : result ∈ (s.turn now allowance).book.results := by
        rw [hresults]
        exact List.mem_append_right _ (List.mem_singleton_self result)
      rw [hserving.results] at hmem
      rw [List.eq_of_mem_replicate hmem]
      rfl

/-- What has been done is what the book says, and if the connection has been closed that was the last deed. -/
structure Tells (a : Assignment) (s : Stint) (ds : List Deed) : Prop where
  results : s.book.results = ds.filterMap Deed.result?
  reported : s.book.reported.map (Prod.mk a.peer) = ds.filterMap Deed.report?
  going : s.closing = none → ∀ d ∈ ds, d.GoesOn
  ended : ∀ k, s.closing = some k → Coherent a ds k

variable {ds : List Deed}

theorem goesOn_deeds {offered : List Record} {result : Option PushResult} {peer : SocketAddress}
    {reported : List Malformed} (herror : result.bind PushResult.error? = none) :
    ∀ d ∈ offered.map .offers ++ result.toList.map .learns ++ reported.map (Deed.reports peer), d.GoesOn := by
  refine List.forall_mem_append.mpr ⟨List.forall_mem_append.mpr ⟨?_, ?_⟩, ?_⟩
  · exact List.forall_mem_map.mpr fun r _ => trivial
  · refine List.forall_mem_map.mpr fun result' hresult => ?_
    obtain rfl := Option.mem_toList.mp hresult
    cases result' with
    | taken => rfl
    | failed e => cases herror
  · exact List.forall_mem_map.mpr fun unit _ => trivial

/-- The closing is the last deed, and right before it stands the failure of a push, if there is one. -/
theorem Sound.last_turn (h : s.Sound a) (hopen : s.closing = none) (now : Instant) (allowance : Nat)
    (hgoing : ∀ d ∈ ds, d.GoesOn) (hk : (s.turn now allowance).closing = some k) :
    ∃ (before : List Deed) (failure : Option PushError), (∀ d ∈ before, d.GoesOn) ∧
      ds ++ s.worker.deeds now s.stopping s.queue allowance
        = before ++ failure.toList.map (.learns ∘ .failed) ++ [.closes k] ∧
      ∀ e, failure = some e ↔ k.error = some (.queue e) := by
  obtain ⟨stopping, ps, failure, -, hclosed⟩ := (h.turn hopen now allowance).ended k hk
  have herror := h.error?_of_result hopen now allowance hclosed
  have hsilent := fun result => @Sound.units_of_result _ _ h hopen now allowance result
  have hnext : (s.worker.step now s.stopping s.queue allowance).next.closing? = some k := hk
  unfold Worker.deeds
  simp only [hnext]
  generalize (s.worker.operation now s.stopping s.queue allowance).bind s.queue.result? = result? at *
  generalize ((s.worker.operation now s.stopping s.queue allowance).bind Queue.Operation.record?).toList = offered
  generalize (s.worker.step now s.stopping s.queue allowance).events.filterMap Worker.Event.unit? = reported at *
  cases hfailure : failure.map (·.2) with
  | none =>
      rw [hfailure] at herror
      refine ⟨ds ++ (offered.map .offers ++ result?.toList.map .learns ++ reported.map (.reports s.worker.peer)),
        none, List.forall_mem_append.mpr ⟨hgoing, goesOn_deeds herror⟩, ?_, fun e => ?_⟩
      · simp
      · rw [← hfailure]
        exact hclosed.cause.failure_iff e
  | some e =>
      rw [hfailure] at herror
      obtain ⟨result, rfl, hresult⟩ := Option.bind_eq_some_iff.mp herror
      obtain rfl := hsilent result rfl
      cases result with
      | taken => cases hresult
      | failed e' =>
          obtain rfl := Option.some.inj hresult
          refine ⟨ds ++ offered.map .offers, some e', ?_, ?_, fun e => ?_⟩
          · exact List.forall_mem_append.mpr ⟨hgoing, List.forall_mem_map.mpr fun r _ => trivial⟩
          · simp
          · rw [← hfailure]
            exact hclosed.cause.failure_iff e

/-- Under the policy to end a connection with its first malformed unit none has been reported before. -/
theorem Sound.reported_of_strict (h : s.Sound a) (hopen : s.closing = none)
    (hpolicy : a.options.policy = .terminate) : s.book.reported = [] := by
  obtain ⟨ps, hand, -, -, hstrict⟩ := h.going hopen
  rw [h.accounted.reported]
  exact units_of_records (hstrict hpolicy)

theorem Tells.results_turn (h : s.Tells a ds) (now : Instant) (allowance : Nat) :
    (s.turn now allowance).book.results
      = (ds ++ s.worker.deeds now s.stopping s.queue allowance).filterMap Deed.result? := by
  rw [List.filterMap_append, ← h.results, Worker.results_deeds]
  rfl

theorem Tells.reported_turn (h : s.Tells a ds) (hpeer : s.worker.peer = a.peer) (now : Instant) (allowance : Nat) :
    (s.turn now allowance).book.reported.map (Prod.mk a.peer)
      = (ds ++ s.worker.deeds now s.stopping s.queue allowance).filterMap Deed.report? := by
  rw [List.filterMap_append, ← h.reported, Worker.reports_deeds, hpeer, ← List.map_append]
  rfl

theorem Tells.going_turn (h : s.Tells a ds) (hsound : s.Sound a) (hopen : s.closing = none) (now : Instant)
    (allowance : Nat) (hgoing : (s.turn now allowance).closing = none) :
    ∀ d ∈ ds ++ s.worker.deeds now s.stopping s.queue allowance, d.GoesOn := by
  have hnext : (s.worker.step now s.stopping s.queue allowance).next.closing? = none := hgoing
  refine List.forall_mem_append.mpr ⟨h.going hopen, ?_⟩
  unfold Worker.deeds
  simp only [hnext]
  rw [Option.toList_none, List.map_nil, List.append_nil]
  exact goesOn_deeds (hsound.error?_of_going hopen now allowance hgoing)

/-- The malformed units that a closing tells of under the policy to end a connection with the first one. -/
theorem Sound.strict_turn (h : s.Sound a) (hopen : s.closing = none) (hpolicy : a.options.policy = .terminate)
    (now : Instant) (allowance : Nat) {stopping : Bool} {ps : List Bytes} {failure : Option (Bytes × PushError)}
    (hclosed : Worker.Closed a stopping (s.turn now allowance).book ps failure k)
    (hsilent : k.summary.reason ≠ .decode →
      (s.worker.step now s.stopping s.queue allowance).events.filterMap Worker.Event.unit? = []) :
    k.summary.malformed = if k.summary.reason = .decode then 1 else 0 := by
  rw [hclosed.malformed]
  split
  · next hdecode =>
      have hcause := hclosed.cause
      rw [hdecode] at hcause
      rw [hclosed.reported]
      exact hcause.units_of_decode
  · next hother =>
      have hreported : (s.turn now allowance).book.reported = s.book.reported ++ [] := by
        rw [← hsilent hother]
        rfl
      rw [hreported, h.reported_of_strict hopen hpolicy]
      rfl

theorem Tells.coherent_turn (h : s.Tells a ds) (hsound : s.Sound a) (hattends : s.Attends a) (hopen : s.closing = none)
    (now : Instant) (allowance : Nat) (hk : (s.turn now allowance).closing = some k) :
    Coherent a (ds ++ s.worker.deeds now s.stopping s.queue allowance) k := by
  obtain ⟨before, hand, hserving, -, -⟩ := hsound.going hopen
  obtain ⟨stopping, ps, failure, -, hclosed⟩ := (hsound.turn hopen now allowance).ended k hk
  obtain ⟨p, hplays, -⟩ := hattends hopen
  obtain ⟨hsilent, htail⟩ := Worker.tidy_step hplays now s.stopping s.queue allowance k hk
  refine ⟨hclosed.cause.suits.error_eq_none_iff, hclosed.cause.suits, ?_, ?_,
    fun hpolicy => hsound.strict_turn hopen hpolicy now allowance hclosed hsilent,
    fun hlost => htail.resolve_left (Nat.ne_of_gt hlost), hsound.last_turn hopen now allowance (h.going hopen) hk⟩
  · rw [← h.results_turn, hclosed.records, hclosed.results, List.count_append, List.count_replicate_self]
    cases failure with
    | none => rfl
    | some f => rfl
  · rw [← h.reported_turn hserving.peer, List.length_map]
    exact hclosed.malformed

theorem Tells.turn (h : s.Tells a ds) (hsound : s.Sound a) (hattends : s.Attends a) (hopen : s.closing = none)
    (now : Instant) (allowance : Nat) :
    (s.turn now allowance).Tells a (ds ++ s.worker.deeds now s.stopping s.queue allowance) := by
  obtain ⟨before, hand, hserving, -, -⟩ := hsound.going hopen
  exact ⟨h.results_turn now allowance, h.reported_turn hserving.peer now allowance,
    h.going_turn hsound hopen now allowance,
    fun k hk => h.coherent_turn hsound hattends hopen now allowance hk⟩

theorem deedsOf_of_idle {m : Move} (h : s.closing.isSome ∨ ∀ now allowance, m ≠ .turn now allowance) :
    s.deedsOf m = [] := by
  cases m with
  | turn now allowance => exact if_pos (h.resolve_right fun hne => hne now allowance rfl)
  | _ => rfl

theorem Tells.step (h : s.Tells a ds) (hsound : s.Sound a) (hattends : s.Attends a) (m : Move) :
    (s.step m).Tells a (ds ++ s.deedsOf m) := by
  have hsteps := s.steps m
  generalize s.step m = s' at *
  cases hsteps with
  | turn now allowance opened =>
      have hdeeds : s.deedsOf (.turn now allowance) = s.worker.deeds now s.stopping s.queue allowance :=
        if_neg (by rw [opened]; exact Bool.false_ne_true)
      rw [hdeeds]
      exact h.turn hsound hattends opened now allowance
  | beside _ _ worker closing book idle =>
      rw [deedsOf_of_idle idle, List.append_nil]
      refine ⟨?_, ?_, ?_, ?_⟩
      · rw [book]
        exact h.results
      · rw [book]
        exact h.reported
      · rw [closing]
        exact h.going
      · rw [closing]
        exact h.ended

theorem Tells.run (h : s.Tells a ds) (hsound : s.Sound a) (hattends : s.Attends a) (moves : List Move) :
    (s.run moves).Tells a (ds ++ s.deeds moves) := by
  induction moves generalizing s ds with
  | nil =>
      rw [Stint.deeds, List.append_nil]
      exact h
  | cons m moves ih =>
      rw [Stint.deeds, ← List.append_assoc]
      exact ih (h.step hsound hattends m) (hsound.step m) (hattends.step m)

theorem tells_start (a : Assignment) (o : QueueOptions) : (start a o).Tells a [] :=
  ⟨rfl, rfl, fun _ _ hd => (List.not_mem_nil hd).elim, fun _ hk => nomatch hk⟩

end Stint

/-! ## Ledgers -/

/-- A ledger takes down the reports and the closing of a worker as it makes them. -/
theorem Intake.ledger_stepWorker (i : Intake) (w : Worker) (allowance : Nat) :
    let ds := w.deeds i.now i.stopping i.queue allowance
    let l := (i.stepWorker w allowance).1.ledger
    l.decodeErrors = i.ledger.decodeErrors ++ ds.filterMap Deed.report? ∧
      l.closings = i.ledger.closings ++ ds.filterMap Deed.closing? := by
  intro ds l
  have hobserved := Ledger.observed_foldl w (w.step i.now i.stopping i.queue allowance).events i.ledger
  have hreports := w.reports_deeds i.now i.stopping i.queue allowance
  have hclosings := w.closings_deeds i.now i.stopping i.queue allowance
  simp only [ds, l]
  rw [hreports, hclosings]
  unfold stepWorker
  simp only
  cases hnext : (w.step i.now i.stopping i.queue allowance).next with
  | ended k => exact ⟨hobserved.decodeErrors, congrArg (· ++ [k]) hobserved.closings⟩
  | _ => exact ⟨hobserved.decodeErrors, hobserved.closings.trans (List.append_nil _).symm⟩

/-- In every run of a worker no push fails and nothing is closed while it serves its connection. When it has closed
the connection, what it tells of it is coherent and agrees with all that it has done, whatever the peer sends, others
do to the queue and the signal to shut down comes between; the closing is the last that it does. A ledger takes down
just that. -/
theorem Stint.coherent_run (a : Assignment) (o : QueueOptions) (moves : List Move) :
    let s := (start a o).run moves
    let ds := (start a o).deeds moves
    (s.closing = none → ∀ d ∈ ds, d.GoesOn) ∧ (∀ k, s.closing = some k → Coherent a ds k) ∧
      (∀ peer unit, .reports peer unit ∈ ds → peer = a.peer) ∧
      ∀ (i : Intake) (w : Worker) (allowance : Nat),
        let did := w.deeds i.now i.stopping i.queue allowance
        let l := (i.stepWorker w allowance).1.ledger
        l.decodeErrors = i.ledger.decodeErrors ++ did.filterMap Deed.report? ∧
          l.closings = i.ledger.closings ++ did.filterMap Deed.closing? := by
  intro s ds
  have htells : s.Tells a ds := (tells_start a o).run (sound_start a o) (attends_start a o) moves
  refine ⟨htells.going, htells.ended, fun peer unit hmem => ?_, Intake.ledger_stepWorker⟩
  have hreport : (peer, unit) ∈ ds.filterMap Deed.report? := List.mem_filterMap.mpr ⟨_, hmem, rfl⟩
  rw [← htells.reported] at hreport
  obtain ⟨_, -, hpair⟩ := List.mem_map.mp hreport
  exact (Prod.mk.inj hpair).1.symm

end LogIntake
