import LogIntake.Proofs.Connection.Stint

/-!
# What a stint goes on from

A worker that has not ended goes on from what the book of its stint says: all frames have been dealt with but
for the record it may have in hand (`Serving`, `Stands`). When it ends there is a reason for that, which the
book bears out (`Closed`). Each function of the worker keeps this, and so does whatever others do to the queue.
-/

namespace LogIntake

namespace Worker

/-! ## What a worker goes on from -/

/-- What a worker has taken from its connection has been dealt with, except for what it may have in hand. -/
structure Serving (a : Assignment) (w : Worker) (b : Book) (ps : List Bytes) (hand : Option Bytes) : Prop where
  connection : w.connection = a.connection
  peer : w.peer = a.peer
  options : w.options = a.options
  along : w.reader.Along a.options.framing a.options.maxRecordSize a.stream a.fault? b.frames
  taken : payloads b.frames = ps ++ hand.toList
  records : w.records = ps.length
  malformed : w.malformed = b.reported.length
  reported : b.reported = units b.frames
  entered : b.entered = a.records ps
  results : b.results = List.replicate ps.length .taken
  progress : b.progress + hand.toList.length ≤ b.frames.length + 1

/-- Where a worker stands, and what it has in hand there. -/
def Stands (a : Assignment) (w : Worker) (q : Queue) (b : Book) (ps : List Bytes) (hand : Option Bytes) : Prop :=
  match w.phase with
  | .starting => hand = none ∧ b.offered = a.records ps ∧ b.progress = 0
  | .ready | .waiting _ => hand = none ∧ b.offered = a.records ps
  | .holding payload => hand = some payload ∧ b.offered = a.records ps
  | .pushing ticket => ∃ payload, hand = some payload ∧ b.offered = a.records (ps ++ [payload]) ∧
      ticket ∈ q.tickets ∧ ∀ v ∈ q.pending, v.ticket = ticket → v.record = a.record ps.length payload

/-- A worker that ends a connection with its first malformed unit has taken none before. -/
def Strict (a : Assignment) (frames : List Frame) : Prop :=
  a.options.policy = .terminate → ∀ f ∈ frames, f.isRecord

/-- Why a worker ends its connection, which had `stopping` before; `failure` is that of its last push. -/
inductive Cause (a : Assignment) (stopping : Bool) (frames : List Frame) :
    Option PushError → CloseReason → Option IntakeError → Nat → Prop where
  | eof {tail : Nat} (running : stopping = false) (strict : Strict a frames) (sound : a.fault? = none)
      (given : a.parse.whole = frames) (ending : a.parse.ending.tail? = some tail) :
      Cause a stopping frames none .eof none tail
  | io {tail : Nat} (cause : IoError) (running : stopping = false) (strict : Strict a frames)
      (fault : a.fault? = some cause) (given : a.parse.frames = frames) (ending : a.parse.ending ≠ .desync) :
      Cause a stopping frames none .io (some (.connection a.peer cause)) tail
  | framing {tail : Nat} (desync : Desync) (running : stopping = false) (strict : Strict a frames)
      (given : a.parse.frames = frames) (ending : a.parse.ending = .desync) :
      Cause a stopping frames none .framing (some (.framing a.peer desync.reason)) tail
  | decode {tail : Nat} (before : List Frame) (unit : Malformed) (running : stopping = false)
      (policy : a.options.policy = .terminate) (given : frames = before ++ [.malformed unit])
      (records : ∀ f ∈ before, f.isRecord) : Cause a stopping frames none .decode (some (.decode a.peer unit)) tail
  | timeout {tail : Nat} (running : stopping = false) :
      Cause a stopping frames none .timeout (some (.readTimeout a.peer a.options.readTimeout)) tail
  | queue {tail : Nat} (e : PushError) : Cause a stopping frames (some e) .queue (some (.queue e)) tail
  | shutdown {tail : Nat} (told : stopping = true) : Cause a stopping frames none .shutdown none tail

/-- How a connection has ended. The record whose push has failed is the last one taken. -/
structure Closed (a : Assignment) (stopping : Bool) (b : Book) (ps : List Bytes)
    (failure : Option (Bytes × PushError)) (k : Closing) : Prop where
  connection : k.summary.connection = a.connection
  peer : k.summary.peer = a.peer
  records : k.summary.records = ps.length
  malformed : k.summary.malformed = b.reported.length
  frames : b.frames <+: a.frames
  taken : payloads b.frames = ps ++ failure.toList.map (·.1)
  reported : b.reported = units b.frames
  entered : b.entered = a.records ps
  offered : b.offered = a.records (payloads b.frames)
  results : b.results = List.replicate ps.length .taken ++ failure.toList.map (.failed ·.2)
  progress : b.progress ≤ b.frames.length + 1
  cause : Cause a stopping b.frames (failure.map (·.2)) k.summary.reason k.error k.summary.discarded

/-- After a turn a worker goes on from what the book says, or has ended. -/
def Turn.Leads (t : Turn) (a : Assignment) (stopping : Bool) (b : Book) : Prop :=
  match t.next with
  | .goesOn v | .blocked v | .spent v =>
    ∃ ps hand, v.Serving a b ps hand ∧ v.Stands a t.queue b ps hand ∧ Strict a b.frames
  | .ended k => ∃ ps failure, Closed a stopping b ps failure k

variable {a : Assignment} {w : Worker} {b : Book} {q q' : Queue} {ps : List Bytes} {hand : Option Bytes}
  {payload : Bytes} {events : List Event} {allowance : Nat} {stopping : Bool}

theorem Turn.Leads.going {t : Turn} (h : t.Leads a stopping b) {v : Worker} (hv : t.next.worker? = some v) :
    ∃ ps hand, v.Serving a b ps hand ∧ v.Stands a t.queue b ps hand ∧ Strict a b.frames := by
  unfold Turn.Leads at h
  cases hnext : t.next with
  | ended k =>
      rw [hnext] at hv
      cases hv
  | _ =>
      rw [hnext] at h hv
      cases hv
      exact h

theorem Turn.Leads.ended {t : Turn} (h : t.Leads a stopping b) {k : Closing} (hk : t.next.closing? = some k) :
    ∃ ps failure, Closed a stopping b ps failure k := by
  unfold Turn.Leads at h
  cases hnext : t.next with
  | ended k' =>
      rw [hnext] at h hk
      cases hk
      exact h
  | _ =>
      rw [hnext] at hk
      cases hk

theorem worker_of_going {next : Next} (h : next.closing? = none) : ∃ v, next.worker? = some v := by
  cases next with
  | ended k => cases h
  | _ => exact ⟨_, rfl⟩

theorem reported_after (b : Book) (q : Queue) {t : Turn} (op : Option Queue.Operation)
    (hevents : t.events.filterMap Event.unit? = []) : (b.after q t op).reported = b.reported := by
  unfold Book.after
  rw [hevents, List.append_nil]

theorem entered_after (b : Book) {t : Turn} (op : Option Queue.Operation) {taken : List Record}
    (h : q.Flow t.queue taken []) : (b.after q t op).entered = b.entered ++ taken := by
  have hrecords := h.records
  rw [List.nil_append] at hrecords
  unfold Book.after
  rw [← hrecords, List.drop_left]

theorem results_after (b : Book) (q : Queue) (t : Turn) {op : Queue.Operation} {result : Option PushResult}
    (h : q.result? op = result) : (b.after q t (some op)).results = b.results ++ result.toList := by
  rw [← h]
  rfl

/-- A turn that only waits or ends leaves the book as it is. -/
theorem after_of_quiet (b : Book) (q : Queue) {t : Turn} (hqueue : t.queue = q)
    (hevents : t.events.filterMap Event.unit? = []) (hnext : t.next.isGoing = false) : b.after q t none = b := by
  unfold Book.after
  rw [hqueue, hevents, hnext, List.drop_length]
  simp

theorem leads_quiet {t : Turn} {v : Worker} (hnext : t.next = .blocked v ∨ t.next = .spent v) (hqueue : t.queue = q)
    (hevents : t.events.filterMap Event.unit? = []) (h : v.Serving a b ps hand) (hstands : v.Stands a q b ps hand)
    (hstrict : Strict a b.frames) : t.Leads a stopping (b.after q t none) := by
  rcases hnext with hnext | hnext
  · rw [after_of_quiet b q hqueue hevents (by rw [hnext]; rfl), Turn.Leads, hnext]
    exact ⟨ps, hand, h, hqueue.symm ▸ hstands, hstrict⟩
  · rw [after_of_quiet b q hqueue hevents (by rw [hnext]; rfl), Turn.Leads, hnext]
    exact ⟨ps, hand, h, hqueue.symm ▸ hstands, hstrict⟩

theorem leads_ended {t : Turn} {k : Closing} {failure : Option (Bytes × PushError)} (hnext : t.next = .ended k)
    (hqueue : t.queue = q) (hevents : t.events.filterMap Event.unit? = []) (h : Closed a stopping b ps failure k) :
    t.Leads a stopping (b.after q t none) := by
  rw [after_of_quiet b q hqueue hevents (by rw [hnext]; rfl), Turn.Leads, hnext]
  exact ⟨ps, failure, h⟩

theorem Serving.phase (h : w.Serving a b ps hand) (phase : Phase) : { w with phase }.Serving a b ps hand :=
  ⟨h.connection, h.peer, h.options, h.along, h.taken, h.records, h.malformed, h.reported, h.entered, h.results,
    h.progress⟩

theorem Serving.closed (h : w.Serving a b ps none) (hoffered : b.offered = a.records ps) (reader : Reader)
    {reason : CloseReason} {error : Option IntakeError}
    (hcause : Cause a stopping b.frames none reason error reader.decoder.discarded) :
    Closed a stopping b ps none
      ⟨⟨w.connection, w.peer, w.records, w.malformed, reader.decoder.discarded, reason⟩, error⟩ := by
  have hpayloads := h.taken
  rw [Option.toList_none, List.append_nil] at hpayloads
  refine ⟨h.connection, h.peer, h.records, h.malformed, h.along.isPrefix, ?_, h.reported, h.entered, ?_, ?_,
    h.progress, hcause⟩
  · rw [hpayloads]
    exact (List.append_nil ps).symm
  · rw [hpayloads]
    exact hoffered
  · rw [h.results]
    exact (List.append_nil _).symm

/-! ## Pushes -/

theorem Serving.record_eq (h : w.Serving a b ps hand) (payload : Bytes) :
    (⟨payload, w.peer, w.connection, w.records⟩ : Record) = a.record ps.length payload := by
  rw [h.peer, h.connection, h.records]
  rfl

/-- The push of the record in hand ends well with an operation. -/
theorem leads_taken (h : w.Serving a b ps (some payload)) (hstrict : Strict a b.frames)
    (hflow : q.Flow q' [a.record ps.length payload] []) (hevents : events.filterMap Event.unit? = [])
    {op : Queue.Operation} (hresult : q.result? op = some .taken)
    (hoffered : b.offered ++ op.record?.toList = a.records (ps ++ [payload])) :
    (w.afterPush q' events allowance .taken).Leads a stopping
      (b.after q (w.afterPush q' events allowance .taken) (some op)) := by
  have hquiet : (events ++ [Event.delivered]).filterMap Event.unit? = [] := by
    rw [List.filterMap_append, hevents]
    rfl
  have hreported := reported_after b q (t := w.afterPush q' events allowance .taken) (some op) hquiet
  refine ⟨ps ++ [payload], none, ⟨h.connection, h.peer, h.options, h.along, ?_, ?_, ?_, ?_, ?_, ?_, h.progress⟩,
    ⟨rfl, hoffered⟩, hstrict⟩
  · rw [Option.toList_none, List.append_nil]
    exact h.taken
  · rw [List.length_append, ← h.records]
    rfl
  · exact h.malformed.trans (congrArg List.length hreported.symm)
  · exact hreported.trans h.reported
  · rw [entered_after b (some op) hflow, h.entered, a.records_concat]
  · rw [results_after b q _ hresult, h.results, List.length_append, List.length_singleton, List.replicate_succ']
    rfl

theorem leads_failed (h : w.Serving a b ps (some payload)) (hflow : q.Flow q' [] [])
    (hevents : events.filterMap Event.unit? = []) {op : Queue.Operation} {e : PushError}
    (hresult : q.result? op = some (.failed e))
    (hoffered : b.offered ++ op.record?.toList = a.records (ps ++ [payload])) :
    (w.afterPush q' events allowance (.failed e)).Leads a stopping
      (b.after q (w.afterPush q' events allowance (.failed e)) (some op)) := by
  have hreported := reported_after b q (t := w.afterPush q' events allowance (.failed e)) (some op) hevents
  refine ⟨ps, some (payload, e), h.connection, h.peer, h.records, ?_, h.along.isPrefix, h.taken, ?_, ?_, ?_, ?_,
    ?_, .queue e⟩
  · exact h.malformed.trans (congrArg List.length hreported.symm)
  · exact hreported.trans h.reported
  · rw [entered_after b (some op) hflow, List.append_nil]
    exact h.entered
  · exact hoffered.trans (congrArg a.records h.taken.symm)
  · rw [results_after b q _ hresult, h.results]
    rfl
  · exact Nat.le_of_succ_le h.progress

/-- The push of the record in hand has to wait. -/
theorem leads_waits (h : w.Serving a b ps (some payload)) (hstrict : Strict a b.frames) {ticket : Nat}
    (hflow : q.Flow q' [] []) (hevents : events.filterMap Event.unit? = []) {op : Queue.Operation}
    (hresult : q.result? op = none) (hoffered : b.offered ++ op.record?.toList = a.records (ps ++ [payload]))
    (hticket : ticket ∈ q'.tickets)
    (hrecord : ∀ v ∈ q'.pending, v.ticket = ticket → v.record = a.record ps.length payload) :
    let t : Turn := ⟨q', .blocked { w with phase := .pushing ticket }, events, allowance⟩
    t.Leads a stopping (b.after q t (some op)) := by
  intro t
  have hreported := reported_after b q (t := t) (some op) hevents
  refine ⟨ps, some payload, ⟨h.connection, h.peer, h.options, h.along, h.taken, h.records, ?_, ?_, ?_, ?_,
    h.progress⟩, ⟨payload, rfl, hoffered, hticket, hrecord⟩, hstrict⟩
  · exact h.malformed.trans (congrArg List.length hreported.symm)
  · exact hreported.trans h.reported
  · rw [entered_after b (some op) hflow, List.append_nil]
    exact h.entered
  · rw [results_after b q _ hresult]
    exact (List.append_nil _).trans h.results

theorem leads_handleRecord (h : w.Serving a b ps (some payload)) (hoffered : b.offered = a.records ps)
    (hstrict : Strict a b.frames) (hq : q.Regular) (hevents : events.filterMap Event.unit? = []) (now : Instant) :
    (w.handleRecord now q events allowance payload).Leads a stopping
      (b.after q (w.handleRecord now q events allowance payload) (w.pushOf now q allowance payload)) := by
  have hbegun : b.offered ++ [a.record ps.length payload] = a.records (ps ++ [payload]) := by
    rw [hoffered, a.records_concat]
  unfold handleRecord pushOf
  rw [h.record_eq payload]
  split
  · exact leads_quiet (.inr rfl) rfl hevents (h.phase (.holding payload)) ⟨rfl, hoffered⟩ hstrict
  · have hpushed := q.pushed_push now (a.record ps.length payload)
    split
    · next q' result hpush =>
        rw [hpush] at hpushed
        have hresult : q.result? (.push now (a.record ps.length payload)) = some result := by
          rw [Queue.result?, hpush]
          rfl
        cases hpushed with
        | taken hflow => exact leads_taken h hstrict hflow hevents hresult hbegun
        | failed e hflow => exact leads_failed h hflow hevents hresult hbegun
    · next q' ticket hpush =>
        rw [hpush] at hpushed
        have hresult : q.result? (.push now (a.record ps.length payload)) = none := by
          rw [Queue.result?, hpush]
          rfl
        cases hpushed with
        | waits hflow hlt hpending =>
            refine leads_waits h hstrict hflow hevents hresult hbegun ?_ fun v hv hticket => ?_
            · have htickets := (Queue.tickets_push_of_waits hpush).1
              exact htickets.symm.subset (List.mem_append_right _ (List.mem_singleton_self _))
            · rcases hpending v hv with hold | hrecord
              · exact absurd hticket (Nat.ne_of_lt (hq.ticketed v hold))
              · exact hrecord

/-! ## Frames -/

/-- A malformed unit is written down and counted. -/
theorem Serving.drop (h : w.Serving a b ps none) (unit : Malformed) {reader : Reader}
    (halong : reader.Along a.options.framing a.options.maxRecordSize a.stream a.fault? (b.frames ++ [.malformed unit]))
    {t : Turn} (hqueue : t.queue = q) (hevents : t.events.filterMap Event.unit? = [unit]) :
    { w with reader, phase := .ready, malformed := w.malformed + 1 }.Serving a
      ((b.take (some (.malformed unit))).after q t none) ps none := by
  have hreported : ((b.take (some (.malformed unit))).after q t none).reported = b.reported ++ [unit] := by
    unfold Book.after
    rw [hevents]
    rfl
  refine ⟨h.connection, h.peer, h.options, halong, ?_, h.records, ?_, ?_, ?_, ?_, ?_⟩
  · show payloads (b.frames ++ [.malformed unit]) = ps ++ []
    rw [payloads_append, h.taken]
    exact List.append_nil _
  · rw [hreported, List.length_append, h.malformed]
    rfl
  · show _ = units (b.frames ++ [.malformed unit])
    rw [hreported, units_append, h.reported]
    rfl
  · have hflow : q.Flow t.queue [] [] := hqueue ▸ .refl q
    rw [entered_after _ none hflow, List.append_nil]
    exact h.entered
  · exact (List.append_nil _).trans h.results
  · have hprogress := h.progress
    unfold Book.after Book.take
    simp only [Option.toList_none, Option.toList_some, List.length_append, List.length_nil, List.length_singleton]
      at hprogress ⊢
    split
    · omega
    · omega

theorem leads_handleMalformed (h : w.Serving a b ps none) (hoffered : b.offered = a.records ps)
    (hstrict : Strict a b.frames) (hevents : events.filterMap Event.unit? = []) (unit : Malformed) {reader : Reader}
    (halong : reader.Along a.options.framing a.options.maxRecordSize a.stream a.fault? (b.frames ++ [.malformed unit]))
    (hrunning : stopping = false) :
    ({ w with reader }.handleMalformed q events allowance unit).Leads a stopping
      ((b.take (some (.malformed unit))).after q ({ w with reader }.handleMalformed q events allowance unit) none) := by
  have hoffered' : ∀ t, ((b.take (some (.malformed unit))).after q t none).offered = a.records ps := fun t =>
    (List.append_nil _).trans hoffered
  unfold handleMalformed
  simp only
  split
  · next hpolicy =>
      have hunits : (events ++ [Event.malformed unit, .dropped]).filterMap Event.unit? = [unit] := by
        rw [List.filterMap_append, hevents]
        rfl
      refine ⟨ps, none, h.drop unit halong rfl hunits, ⟨rfl, hoffered' _⟩, fun hterminate => ?_⟩
      rw [h.options, hterminate] at hpolicy
      cases hpolicy
  · next hpolicy =>
      have hunits : (events ++ [Event.malformed unit]).filterMap Event.unit? = [unit] := by
        rw [List.filterMap_append, hevents]
        rfl
      rw [h.options] at hpolicy
      have hdrop := h.drop unit halong (q := q)
        (t := ⟨q, { w with reader, phase := .ready, malformed := w.malformed + 1 }.close .decode
          (some (.decode w.peer unit)), events ++ [.malformed unit], allowance⟩) rfl hunits
      refine ⟨ps, none, hdrop.closed (hoffered' _) reader ?_⟩
      rw [h.peer]
      exact .decode b.frames unit hrunning hpolicy rfl (hstrict hpolicy)

theorem leads_await (h : w.Serving a b ps none) (hoffered : b.offered = a.records ps) (hstrict : Strict a b.frames)
    (hevents : events.filterMap Event.unit? = []) (hrunning : stopping = false) (now deadline : Instant)
    {next : Worker → Next} (hnext : ∀ v, next v = .blocked v ∨ next v = .spent v) :
    (w.await now deadline q events allowance next).Leads a stopping
      (b.after q (w.await now deadline q events allowance next) none) := by
  unfold await
  split
  · have hcause : Cause a stopping b.frames none .timeout (some (.readTimeout w.peer w.options.readTimeout))
        w.reader.decoder.discarded := by
      rw [h.peer, h.options]
      exact .timeout hrunning
    exact leads_ended rfl rfl hevents (h.closed hoffered w.reader hcause)
  · exact leads_quiet (hnext _) rfl hevents (h.phase (.waiting deadline)) ⟨rfl, hoffered⟩ hstrict

theorem Serving.reader (h : w.Serving a b ps none) {reader : Reader}
    (halong : reader.Along a.options.framing a.options.maxRecordSize a.stream a.fault? b.frames) :
    { w with reader }.Serving a b ps none :=
  ⟨h.connection, h.peer, h.options, halong, h.taken, h.records, h.malformed, h.reported, h.entered, h.results,
    h.progress⟩

/-- A record is in hand. -/
theorem Serving.hold (h : w.Serving a b ps none) (payload : Bytes) {reader : Reader}
    (halong : reader.Along a.options.framing a.options.maxRecordSize a.stream a.fault?
      (b.frames ++ [.record payload])) :
    { w with reader }.Serving a (b.take (some (Frame.record payload))) ps (some payload) := by
  refine ⟨h.connection, h.peer, h.options, halong, ?_, h.records, h.malformed, ?_, h.entered, h.results, ?_⟩
  · show payloads (b.frames ++ [.record payload]) = ps ++ [payload]
    rw [payloads_append, h.taken, Option.toList_none, List.append_nil]
    rfl
  · show b.reported = units (b.frames ++ [.record payload])
    rw [units_append, h.reported]
    exact (List.append_nil _).symm
  · show b.progress + 1 ≤ (b.frames ++ [Frame.record payload]).length + 1
    rw [List.length_append]
    exact Nat.succ_le_succ h.progress

theorem leads_takeFrame (h : w.Serving a b ps none) (hoffered : b.offered = a.records ps) (hstrict : Strict a b.frames)
    (hq : q.Regular) (hrunning : stopping = false) (now deadline : Instant) (allowance : Nat) :
    let result := w.reader.next now (w.newest? q) allowance
    (w.takeFrame now deadline q allowance).Leads a stopping
      ((b.take result.arrival.frame?).after q (w.takeFrame now deadline q allowance)
        ((result.arrival.frame?.bind Frame.payload?).bind (w.pushOf now q result.allowance))) := by
  have hshows := h.along.next now (w.newest? q) allowance
  unfold takeFrame
  generalize w.reader.next now (w.newest? q) allowance = result at *
  intro r
  have hevents : (if result.signalled then [Event.signalled] else []).filterMap Event.unit? = [] := by
    cases result.signalled with
    | true => rfl
    | false => rfl
  simp only [r]
  generalize (if result.signalled then [Event.signalled] else []) = events at *
  unfold Reader.Result.Shows at hshows
  have hsame : result.arrival.frame? = none → b.take result.arrival.frame? = b := by
    intro hnone
    rw [hnone, b.take_none]
  cases harrival : result.arrival with
  | frame frame =>
      rw [harrival] at hshows
      cases frame with
      | record payload =>
          have hstrict' : Strict a (b.take (some (Frame.record payload))).frames := fun hpolicy =>
            List.forall_mem_append.mpr ⟨hstrict hpolicy, List.forall_mem_singleton.mpr rfl⟩
          exact leads_handleRecord (h.hold payload hshows) hoffered hstrict' hq hevents now
      | malformed unit => exact leads_handleMalformed h hoffered hstrict hevents unit hshows hrunning
  | ended =>
      rw [harrival] at hshows hsame
      rw [hsame rfl]
      obtain ⟨hfault, hwhole, htail⟩ := hshows
      exact leads_ended rfl rfl hevents (h.closed hoffered result.reader (.eof hrunning hstrict hfault hwhole htail))
  | failed cause =>
      rw [harrival] at hshows hsame
      rw [hsame rfl]
      cases cause with
      | io cause =>
          obtain ⟨hfault, hframes, hending⟩ := hshows
          have hcause : Cause a stopping b.frames none .io (some (.connection w.peer cause))
              result.reader.decoder.discarded := by
            rw [h.peer]
            exact .io cause hrunning hstrict hfault hframes hending
          exact leads_ended rfl rfl hevents (h.closed hoffered result.reader hcause)
      | desync reason =>
          obtain ⟨hframes, hending, desync, rfl⟩ := hshows
          have hcause : Cause a stopping b.frames none .framing (some (.framing w.peer desync.reason))
              result.reader.decoder.discarded := by
            rw [h.peer]
            exact .framing desync hrunning hstrict hframes hending
          exact leads_ended rfl rfl hevents (h.closed hoffered result.reader hcause)
  | blocked =>
      rw [harrival] at hshows hsame
      rw [hsame rfl]
      exact leads_await (h.reader hshows) hoffered hstrict hevents hrunning now deadline fun v => .inl rfl
  | spent =>
      rw [harrival] at hshows hsame
      rw [hsame rfl]
      exact leads_await (h.reader hshows) hoffered hstrict hevents hrunning now deadline fun v => .inr rfl

theorem leads_begin (h : w.Serving a b ps none) (hoffered : b.offered = a.records ps) (hstrict : Strict a b.frames)
    (hq : q.Regular) (hstands : w.Stands a q b ps none) (now deadline : Instant) (stopping : Bool) (allowance : Nat) :
    let look := if allowance = 0 ∨ stopping = true then none else some (w.reader.next now (w.newest? q) allowance)
    (w.begin now deadline stopping q allowance).Leads a stopping
      ((b.take (look.bind (·.arrival.frame?))).after q (w.begin now deadline stopping q allowance)
        (look.bind fun result =>
          (result.arrival.frame?.bind Frame.payload?).bind (w.pushOf now q result.allowance))) := by
  unfold begin
  by_cases hspent : allowance = 0
  · simp only [if_pos hspent, if_pos (Or.inl hspent : allowance = 0 ∨ stopping = true), Option.bind_none]
    rw [b.take_none]
    exact leads_quiet (.inr rfl) rfl rfl h hstands hstrict
  · by_cases hstop : stopping = true
    · simp only [if_neg hspent, if_pos hstop, if_pos (Or.inr hstop : allowance = 0 ∨ stopping = true),
        Option.bind_none]
      rw [b.take_none]
      exact leads_ended rfl rfl rfl (h.closed hoffered w.reader (.shutdown hstop))
    · simp only [if_neg hspent, if_neg hstop, if_neg (not_or.mpr ⟨hspent, hstop⟩), Option.bind_some]
      exact leads_takeFrame h hoffered hstrict hq (Bool.eq_false_iff.mpr hstop) now deadline allowance

theorem leads_started (h : w.Serving a b ps none) (hoffered : b.offered = a.records ps) (hprogress : b.progress = 0)
    (hstrict : Strict a b.frames) :
    let t : Turn := ⟨q, .goesOn { w with phase := .ready }, [.started], allowance⟩
    t.Leads a stopping ((b.take none).after q t none) := by
  intro t
  rw [b.take_none]
  have hreported := reported_after b q (t := t) none rfl
  refine ⟨ps, none, ⟨h.connection, h.peer, h.options, h.along, h.taken, h.records, ?_, ?_, ?_, ?_, ?_⟩,
    ⟨rfl, (List.append_nil _).trans hoffered⟩, hstrict⟩
  · exact h.malformed.trans (congrArg List.length hreported.symm)
  · exact hreported.trans h.reported
  · rw [entered_after b none (.refl q), List.append_nil]
    exact h.entered
  · exact (List.append_nil _).trans h.results
  · show b.progress + 1 + 0 ≤ b.frames.length + 1
    omega

/-- After a step a worker goes on from what the book then says, or has ended for a reason. -/
theorem leads_step (h : w.Serving a b ps hand) (hstands : w.Stands a q b ps hand) (hstrict : Strict a b.frames)
    (hq : q.Regular) (now : Instant) (stopping : Bool) (allowance : Nat) :
    (w.step now stopping q allowance).Leads a stopping
      ((b.take (w.frame? now stopping q allowance)).after q (w.step now stopping q allowance)
        (w.operation now stopping q allowance)) := by
  unfold Worker.step frame? operation look?
  have hwhere := hstands
  unfold Stands at hwhere
  cases hphase : w.phase with
  | starting =>
      rw [hphase] at hwhere
      obtain ⟨rfl, hoffered, hprogress⟩ := hwhere
      exact leads_started h hoffered hprogress hstrict
  | ready =>
      rw [hphase] at hwhere
      obtain ⟨rfl, hoffered⟩ := hwhere
      exact leads_begin h hoffered hstrict hq hstands now _ stopping allowance
  | waiting deadline =>
      rw [hphase] at hwhere
      obtain ⟨rfl, hoffered⟩ := hwhere
      exact leads_begin h hoffered hstrict hq hstands now deadline stopping allowance
  | holding payload =>
      rw [hphase] at hwhere
      obtain ⟨rfl, hoffered⟩ := hwhere
      simp only [Option.bind_none]
      rw [b.take_none]
      exact leads_handleRecord h hoffered hstrict hq rfl now
  | pushing ticket =>
      rw [hphase] at hwhere
      obtain ⟨payload, rfl, hoffered, hticket, hrecords⟩ := hwhere
      simp only [Option.bind_none]
      rw [b.take_none]
      have hbegun : b.offered ++ [] = a.records (ps ++ [payload]) := (List.append_nil _).trans hoffered
      have hresumed := q.resumed_resume ticket
      split
      · next q' result hresume =>
          have hresult : q.result? (.resume ticket) = some result := congrArg Prod.snd hresume
          rw [hresume] at hresumed
          cases hresumed with
          | taken v hv hv' hflow =>
              rw [hrecords v hv hv'] at hflow
              exact leads_taken h hstrict hflow rfl hresult hbegun
          | failed e hflow => exact leads_failed h hflow rfl hresult hbegun
      · next q' hresume =>
          have hresult : q.result? (.resume ticket) = none := congrArg Prod.snd hresume
          let t : Turn := ⟨q, .blocked { w with phase := .pushing ticket }, [], allowance⟩
          have hwaits : t.Leads a stopping (b.after q t (some (.resume ticket))) :=
            leads_waits h hstrict (.refl q) rfl hresult hbegun hticket hrecords
          simp only [t, ← hphase] at hwaits
          exact hwaits

/-- Operations of others leave a worker where it stands. -/
theorem Stands.of_flow {taken given : List Record} (h : w.Stands a q b ps hand) (hq : q.Regular)
    (hflow : q.Flow q' taken given)
    (hticket : ∀ ticket, w.ticket? = some ticket → ticket ∈ q.tickets → ticket ∈ q'.tickets) :
    w.Stands a q' b ps hand := by
  unfold Stands at h ⊢
  unfold ticket? at hticket
  cases hphase : w.phase with
  | pushing ticket =>
      rw [hphase] at h hticket
      obtain ⟨payload, hhand, hoffered, hmem, hrecords⟩ := h
      obtain ⟨t, hagrees⟩ := hq
      refine ⟨payload, hhand, hoffered, hticket ticket rfl hmem, fun v hv hv' => ?_⟩
      exact hrecords v (hflow.mem_of_lt hv (hv' ▸ hagrees.fresh ticket hmem)) hv'
  | _ => rwa [hphase] at h

end Worker

/-! ## Runs -/

namespace Stint

/-- The worker of a stint goes on from what the book says, or has ended for a reason that the book bears out. -/
structure Sound (a : Assignment) (s : Stint) : Prop where
  regular : s.queue.Regular
  going : s.closing = none → ∃ ps hand, s.worker.Serving a s.book ps hand ∧
    s.worker.Stands a s.queue s.book ps hand ∧ Worker.Strict a s.book.frames
  ended : ∀ k, s.closing = some k → ∃ stopping ps failure, (stopping = true → s.stopping = true) ∧
    Worker.Closed a stopping s.book ps failure k

variable {a : Assignment} {s : Stint}

theorem sound_start (a : Assignment) (o : QueueOptions) : (start a o).Sound a := by
  refine ⟨Queue.regular_start o, fun _ => ?_, fun k hk => nomatch hk⟩
  have halong := Reader.along_start a.steps (.start a.options.recvBufferSize) a.options.framing a.options.maxRecordSize
  exact ⟨[], none, ⟨rfl, rfl, rfl, halong, rfl, rfl, rfl, rfl, rfl, rfl, Nat.zero_le _⟩, ⟨rfl, rfl, rfl⟩,
    fun _ f hf => nomatch hf⟩

theorem Sound.leads (h : s.Sound a) (hopen : s.closing = none) (now : Instant) (allowance : Nat) :
    (s.worker.step now s.stopping s.queue allowance).Leads a s.stopping (s.turn now allowance).book := by
  obtain ⟨ps, hand, hserving, hstands, hstrict⟩ := h.going hopen
  exact Worker.leads_step hserving hstands hstrict h.regular now s.stopping allowance

theorem Sound.turn (h : s.Sound a) (hopen : s.closing = none) (now : Instant) (allowance : Nat) :
    (s.turn now allowance).Sound a := by
  have hleads := h.leads hopen now allowance
  have hregular : (s.worker.step now s.stopping s.queue allowance).queue.Regular := by
    rw [s.worker.queue_step now s.stopping s.queue allowance]
    cases s.worker.operation now s.stopping s.queue allowance with
    | none => exact h.regular
    | some op => exact h.regular.apply op
  unfold Stint.turn at *
  generalize s.worker.step now s.stopping s.queue allowance = t at *
  refine ⟨hregular, fun hgoing => ?_, fun k hk => ?_⟩
  · obtain ⟨v, hv⟩ := Worker.worker_of_going hgoing
    simp only [hv, Option.getD_some]
    exact hleads.going hv
  · obtain ⟨ps, failure, hclosed⟩ := hleads.ended hk
    exact ⟨s.stopping, ps, failure, fun hstop => Bool.or_eq_true_iff.mpr (.inl hstop), hclosed⟩

/-- Others do something to the queue. -/
theorem Sound.of_flow {queue : Queue} {taken given : List Record} (h : s.Sound a) (hregular : queue.Regular)
    (hflow : s.queue.Flow queue taken given)
    (hticket : ∀ ticket, s.worker.ticket? = some ticket → ticket ∈ s.queue.tickets → ticket ∈ queue.tickets) :
    Sound a { s with queue } := by
  refine ⟨hregular, fun hopen => ?_, h.ended⟩
  obtain ⟨ps, hand, hserving, hstands, hstrict⟩ := h.going hopen
  exact ⟨ps, hand, hserving, hstands.of_flow h.regular hflow hticket, hstrict⟩

theorem Sound.step (h : s.Sound a) (m : Move) : (s.step m).Sound a := by
  cases m with
  | turn now allowance =>
      show Sound a (if s.closing.isSome then s else s.turn now allowance)
      split
      · exact h
      · next hopen => exact h.turn (Option.not_isSome_iff_eq_none.mp hopen) now allowance
  | other op =>
      show Sound a (if s.worker.ticket?.map .resume = some op then s else { s with queue := s.queue.apply op })
      split
      · exact h
      · next hne =>
          obtain ⟨taken, hflow⟩ := s.queue.flow_apply op
          refine h.of_flow (h.regular.apply op) hflow fun ticket hticket hmem => ?_
          refine h.regular.mem_tickets_apply (fun hop => hne ?_) hmem
          rw [hticket, hop]
          rfl
  | leave =>
      refine h.of_flow h.regular.abandon s.queue.flow_abandon fun ticket _ hmem => ?_
      exact (Queue.tickets_close { s.queue with buffered := [] }).symm.subset hmem
  | signal =>
      refine ⟨h.regular, h.going, fun k hk => ?_⟩
      obtain ⟨stopping, ps, failure, -, hclosed⟩ := h.ended k hk
      exact ⟨stopping, ps, failure, fun _ => rfl, hclosed⟩

theorem Sound.run (h : s.Sound a) (moves : List Move) : (s.run moves).Sound a := by
  induction moves generalizing s with
  | nil => exact h
  | cons m moves ih => exact ih (h.step m)

end Stint

end LogIntake
