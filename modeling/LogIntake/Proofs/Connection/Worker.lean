import LogIntake.Connection.Worker
import LogIntake.Proofs.Connection.Reader
import LogIntake.Proofs.Queue.Flow

/-!
# Workers and their conversations

A conversation is what there is to know of a connection from outside: what its peer sends, how much of that
has been read, and how many records of it are in the queue or have been. A worker serves its conversation
(`Serves`): the records that are in the queue, with the one that the worker holds, are those of the frames it
has taken. A step of the worker puts at most one record into the queue, the one it holds (`Serves.step`).
-/

namespace LogIntake

structure Conversation where
  connection : Nat
  peer : SocketAddress
  /-- All that the peer sends. -/
  sent : Bytes
  /-- What has been read of it. -/
  received : Bytes := []
  /-- How many pushes of records have succeeded. -/
  pushed : Nat := 0
  deriving DecidableEq, Repr

namespace Conversation

def record (c : Conversation) (sequence : Nat) (payload : Bytes) : Record :=
  ⟨payload, c.peer, c.connection, sequence⟩

def records (c : Conversation) (payloads : List Bytes) : List Record :=
  payloads.mapIdx c.record

theorem records_append (c : Conversation) (ps : List Bytes) (added : Option Bytes) :
    c.records (ps ++ added.toList) = c.records ps ++ added.toList.map (c.record ps.length) := by
  cases added with
  | none => simp only [Option.toList_none, List.append_nil, List.map_nil]
  | some payload =>
      rw [records, Option.toList_some, List.mapIdx_concat]
      rfl

theorem connection_of_mem_records {c : Conversation} {sequence : Nat} {ps : List Bytes} {r : Record}
    (h : r ∈ ps.map (c.record sequence)) : r.connection = c.connection := by
  obtain ⟨payload, -, rfl⟩ := List.mem_map.mp h
  rfl

theorem peer_of_mem_records {c : Conversation} {ps : List Bytes} (r : Record) (h : r ∈ c.records ps) :
    r.peer = c.peer := by
  obtain ⟨i, hi, rfl⟩ := List.mem_mapIdx.mp h
  rfl

theorem map_sequence_records (c : Conversation) (ps : List Bytes) :
    (c.records ps).map (·.sequence) = List.range ps.length := by
  refine List.ext_getElem ?_ fun i hi hi' => ?_
  · simp [records]
  · simp [records, record]

theorem map_payload_records (c : Conversation) (ps : List Bytes) : (c.records ps).map (·.payload) = ps := by
  refine List.ext_getElem ?_ fun i hi hi' => ?_
  · simp [records]
  · simp [records, record]

/-- All frames that a worker with these options can know of. -/
def parse (c : Conversation) (o : WorkerOptions) : Parse :=
  o.framing.meaning o.maxRecordSize c.received

/-- These are the first payloads of the conversation, and under the policy to end a connection with its first
malformed unit they come before that. -/
structure Told (c : Conversation) (o : WorkerOptions) (ps : List Bytes) : Prop where
  pushed : c.pushed = ps.length
  sent : c.received <+: c.sent
  frames : ps <+: payloads (c.parse o).frames
  terminate : o.policy = .terminate → ps <+: payloads ((c.parse o).frames.takeWhile Frame.isRecord)

theorem told_of_taken {c : Conversation} {o : WorkerOptions} {ps : List Bytes} {given : List Frame}
    (hpushed : c.pushed = ps.length) (hsent : c.received <+: c.sent) (hgiven : given <+: (c.parse o).whole)
    (hps : ps <+: payloads given) (hall : o.policy = .terminate → ∀ f ∈ given, f.isRecord) : c.Told o ps := by
  refine ⟨hpushed, hsent, ?_, fun hpolicy => ?_⟩
  · rw [← Parse.payloads_whole]
    exact hps.trans (payloads_isPrefix hgiven)
  · rw [← Parse.takeWhile_whole]
    exact hps.trans (payloads_isPrefix (prefix_takeWhile hgiven (hall hpolicy)))

end Conversation

namespace Worker

/-! ## Serving a conversation -/

/-- What a worker has taken from its connection is in the queue, except for what it may hold. -/
structure Owes (w : Worker) (c : Conversation) (ps : List Bytes) (held : Option Bytes) : Prop where
  connection : c.connection = w.connection
  peer : c.peer = w.peer
  records : w.records = ps.length
  pushed : c.pushed = ps.length
  sent : c.sent = c.received ++ w.reader.source.content
  taken : ∃ given, w.reader.Following w.options.framing w.options.maxRecordSize c.received given ∧
    payloads given = ps ++ held.toList ∧ (w.options.policy = .terminate → ∀ f ∈ given, f.isRecord)

/-- What a worker holds where it stands. A push that waits is that of the record it holds. -/
def Holds (w : Worker) (c : Conversation) (q : Queue) (held : Option Bytes) : Prop :=
  match w.phase with
  | .holding payload => held = some payload
  | .pushing ticket => ticket < q.nextTicket ∧ ∃ payload, held = some payload ∧
      ∀ v ∈ q.pending, v.ticket = ticket → v.record = c.record w.records payload
  | _ => held = none

def Serves (w : Worker) (c : Conversation) (q : Queue) (ps : List Bytes) : Prop :=
  ∃ held, w.Owes c ps held ∧ w.Holds c q held

variable {w : Worker} {c : Conversation} {q q' : Queue} {ps : List Bytes} {held : Option Bytes} {payload : Bytes}
  {events : List Event} {allowance : Nat}

theorem Owes.told (h : w.Owes c ps held) : c.Told w.options ps := by
  obtain ⟨given, hfollowing, hpayloads, hall⟩ := h.taken
  refine Conversation.told_of_taken h.pushed ?_ hfollowing.isPrefix ?_ hall
  · rw [h.sent]
    exact List.prefix_append ..
  · rw [hpayloads]
    exact List.prefix_append ..

theorem Serves.connection (h : w.Serves c q ps) : c.connection = w.connection := by
  obtain ⟨held, howes, -⟩ := h
  exact howes.connection

theorem Serves.told (h : w.Serves c q ps) : c.Told w.options ps := by
  obtain ⟨held, howes, -⟩ := h
  exact howes.told

theorem Owes.phase (h : w.Owes c ps held) (phase : Phase) : { w with phase }.Owes c ps held :=
  ⟨h.connection, h.peer, h.records, h.pushed, h.sent, h.taken⟩

theorem Owes.delivered (h : w.Owes c ps (some payload)) (phase : Phase) :
    { w with phase, records := w.records + 1 }.Owes { c with pushed := c.pushed + 1 } (ps ++ [payload]) none := by
  obtain ⟨given, hfollowing, hpayloads, hall⟩ := h.taken
  refine ⟨h.connection, h.peer, ?_, ?_, h.sent, given, hfollowing, ?_, hall⟩
  · rw [List.length_append, ← h.records]
    rfl
  · rw [List.length_append, ← h.pushed]
    rfl
  · rw [hpayloads, Option.toList_none, List.append_nil]
    rfl

theorem serves_start (connection : Nat) (peer : SocketAddress) (o : WorkerOptions) (steps : List Source.Step)
    (q : Queue) :
    (Worker.start connection peer o steps).Serves { connection, peer, sent := (Source.mk steps none).content } q [] :=
  have hfollowing := Reader.following_start { steps } (.start o.recvBufferSize) o.framing o.maxRecordSize
  ⟨none, ⟨rfl, rfl, rfl, rfl, rfl, [], hfollowing, rfl, fun _ _ hf => nomatch hf⟩, rfl⟩

/-! ## What a turn does for a conversation -/

/-- Whether a worker waits for a frame. -/
def isWaiting (w : Worker) : Bool :=
  match w.phase with
  | .waiting _ => true
  | _ => false

def Next.worker? : Next → Option Worker
  | .goesOn w | .blocked w | .spent w => some w
  | .ended _ => none

/-- A turn puts at most one record into the queue, and the worker goes on to serve the conversation. -/
def Turn.Keeps (t : Turn) (o : WorkerOptions) (c : Conversation) (q : Queue) (ps : List Bytes) : Prop :=
  ∃ added : Option Bytes,
    let c' := { c with pushed := c.pushed + added.toList.length }
    q.Flow t.queue (added.toList.map (c.record ps.length)) [] ∧
      t.events.count .delivered = added.toList.length ∧
      c'.Told o (ps ++ added.toList) ∧
      ∀ v, t.next.worker? = some v → v.options = o ∧ v.Serves c' t.queue (ps ++ added.toList)

theorem keeps_of_told {o : WorkerOptions} {t : Turn} (hflow : q.Flow t.queue [] [])
    (hevents : t.events.count .delivered = 0) (htold : c.Told o ps)
    (hnext : ∀ v, t.next.worker? = some v → v.options = o ∧ v.Serves c t.queue ps) : t.Keeps o c q ps := by
  refine ⟨none, hflow, hevents, ?_, ?_⟩
  · rw [Option.toList_none, List.append_nil]
    exact htold
  · rw [Option.toList_none, List.append_nil]
    exact hnext

theorem keeps_of_phase {t : Turn} (h : w.Owes c ps held) (phase : Phase) (hflow : q.Flow t.queue [] [])
    (hevents : t.events.count .delivered = 0) (hnext : ∀ v, t.next.worker? = some v → v = { w with phase })
    (hholds : { w with phase }.Holds c t.queue held) : t.Keeps w.options c q ps := by
  refine keeps_of_told hflow hevents h.told fun v hv => ?_
  obtain rfl := hnext v hv
  exact ⟨rfl, held, h.phase phase, hholds⟩

theorem keeps_taken (h : w.Owes c ps (some payload)) (hflow : q.Flow q' [c.record ps.length payload] [])
    (hevents : events.count .delivered = 0) :
    (w.afterPush q' events allowance .taken).Keeps w.options c q ps := by
  have howes := h.delivered .ready
  refine ⟨some payload, hflow, ?_, howes.told, fun v hv => ?_⟩
  · show (events ++ [Event.delivered]).count .delivered = 1
    rw [List.count_append, hevents]
    rfl
  · obtain rfl := Option.some.inj hv
    exact ⟨rfl, none, howes, rfl⟩

theorem keeps_failed (h : w.Owes c ps (some payload)) (hflow : q.Flow q' [] []) (e : PushError)
    (hevents : events.count .delivered = 0) :
    (w.afterPush q' events allowance (.failed e)).Keeps w.options c q ps :=
  keeps_of_told hflow hevents h.told fun _ hv => nomatch hv

theorem keeps_handleRecord (h : w.Owes c ps (some payload)) (now : Instant)
    (hevents : events.count .delivered = 0) (hq : q.Ticketed) :
    (w.handleRecord now q events allowance payload).Keeps w.options c q ps := by
  have hrecord : (⟨payload, w.peer, w.connection, w.records⟩ : Record) = c.record ps.length payload := by
    rw [← h.peer, ← h.connection, h.records]
    rfl
  unfold handleRecord
  rw [hrecord]
  split
  · exact keeps_of_phase h (.holding payload) (.refl q) hevents (fun v hv => (Option.some.inj hv).symm) rfl
  · have hpushed := q.pushed_push now (c.record ps.length payload)
    split
    · next q' result hpush =>
        rw [hpush] at hpushed
        cases hpushed with
        | taken hflow => exact keeps_taken h hflow hevents
        | failed e hflow => exact keeps_failed h hflow e hevents
    · next q' ticket hpush =>
        rw [hpush] at hpushed
        cases hpushed with
        | waits hflow hlt hpending =>
            refine keeps_of_phase h (.pushing q.nextTicket) hflow hevents (fun v hv => (Option.some.inj hv).symm) ?_
            refine ⟨hlt, payload, rfl, fun v hv hticket => ?_⟩
            rcases hpending v hv with hold | hrecord
            · exact absurd hticket (Nat.ne_of_lt (hq v hold))
            · rw [h.records]
              exact hrecord

/-! ## Taking frames -/

/-- What an arrival means to a worker: the conversation goes on with what has been read. -/
structure Arrives (w : Worker) (c : Conversation) (ps : List Bytes) (result : Reader.Result) : Prop where
  told : c.Told w.options ps
  record : ∀ payload, result.arrival = .frame (.record payload) →
    { w with reader := result.reader }.Owes c ps (some payload)
  malformed : ∀ unit, result.arrival = .frame (.malformed unit) → w.options.policy = .drop →
    { w with reader := result.reader }.Owes c ps none
  waiting : result.arrival = .blocked ∨ result.arrival = .spent → { w with reader := result.reader }.Owes c ps none

theorem arrives_next (h : w.Owes c ps none) (now : Instant) (newest : Option Nat) (allowance : Nat) :
    w.Arrives { c with received := c.received ++ w.reader.taken (w.reader.next now newest allowance).reader } ps
      (w.reader.next now newest allowance) := by
  obtain ⟨given, hfollowing, hpayloads, hall⟩ := h.taken
  obtain ⟨bytes, hcontent, htells⟩ := hfollowing.next now newest allowance
  rw [Reader.taken_of_content hcontent]
  generalize w.reader.next now newest allowance = result at *
  have hsent : c.sent = (c.received ++ bytes) ++ result.reader.source.content := by
    rw [h.sent, hcontent, List.append_assoc]
  rw [Option.toList_none, List.append_nil] at hpayloads
  refine ⟨?_, fun payload harrival => ?_, fun unit harrival hpolicy => ?_, fun harrival => ?_⟩
  · refine Conversation.told_of_taken h.pushed ?_ htells.isPrefix ?_ hall
    · rw [hsent]
      exact List.prefix_append ..
    · exact hpayloads.symm ▸ List.prefix_refl _
  · rw [Reader.Result.Tells, harrival] at htells
    refine ⟨h.connection, h.peer, h.records, h.pushed, hsent, _, htells, ?_, fun hpolicy => ?_⟩
    · rw [payloads_append, hpayloads]
      rfl
    · exact List.forall_mem_append.mpr ⟨hall hpolicy, List.forall_mem_singleton.mpr rfl⟩
  · rw [Reader.Result.Tells, harrival] at htells
    refine ⟨h.connection, h.peer, h.records, h.pushed, hsent, _, htells, ?_, fun hterminate => ?_⟩
    · rw [payloads_append, hpayloads]
      rfl
    · rw [hpolicy] at hterminate
      cases hterminate
  · have hstill : result.reader.Following w.options.framing w.options.maxRecordSize (c.received ++ bytes) given := by
      rcases harrival with harrival | harrival
      · rwa [Reader.Result.Tells, harrival] at htells
      · rwa [Reader.Result.Tells, harrival] at htells
    exact ⟨h.connection, h.peer, h.records, h.pushed, hsent, given, hstill, by rw [hpayloads]; simp, hall⟩

def readIn (w : Worker) (now : Instant) (stopping : Bool) (q : Queue) (allowance : Nat) : Bytes :=
  match w.phase with
  | .ready | .waiting _ =>
    if allowance = 0 ∨ stopping = true then []
    else w.reader.taken (w.reader.next now (w.newest? q) allowance).reader
  | _ => []

/-- `w` has dropped a malformed unit; it goes on if its policy is to drop them. -/
theorem keeps_handleMalformed (htold : c.Told w.options ps) (howes : w.options.policy = .drop → w.Owes c ps none)
    (hevents : events.count .delivered = 0) (unit : Malformed) :
    (w.handleMalformed q events allowance unit).Keeps w.options c q ps := by
  have hcount : ∀ more : List Event, more.count .delivered = 0 → (events ++ more).count .delivered = 0 := by
    intro more hmore
    rw [List.count_append, hevents, hmore]
  unfold handleMalformed
  simp only
  split
  · next hpolicy =>
      refine keeps_of_told (.refl q) (hcount _ rfl) htold fun v hv => ?_
      obtain rfl := Option.some.inj hv
      have h := howes hpolicy
      exact ⟨rfl, none, ⟨h.connection, h.peer, h.records, h.pushed, h.sent, h.taken⟩, rfl⟩
  · exact keeps_of_told (.refl q) (hcount _ rfl) htold fun _ hv => nomatch hv

theorem keeps_await (h : w.Owes c ps none) (now deadline : Instant) (hevents : events.count .delivered = 0)
    {next : Worker → Next} (hnext : ∀ v, (next v).worker? = some v) :
    (w.await now deadline q events allowance next).Keeps w.options c q ps := by
  unfold await
  split
  · exact keeps_of_told (.refl q) hevents h.told fun _ hv => nomatch hv
  · refine keeps_of_phase h (.waiting deadline) (.refl q) hevents (fun v hv => ?_) rfl
    rw [hnext] at hv
    exact (Option.some.inj hv).symm

theorem keeps_takeFrame (h : w.Owes c ps none) (now deadline : Instant) (hq : q.Ticketed) (allowance : Nat) :
    (w.takeFrame now deadline q allowance).Keeps w.options
      { c with received := c.received ++ w.reader.taken (w.reader.next now (w.newest? q) allowance).reader } q ps := by
  have harrives := arrives_next h now (w.newest? q) allowance
  unfold takeFrame
  generalize w.reader.next now (w.newest? q) allowance = result at *
  have hevents : (if result.signalled then [Event.signalled] else []).count .delivered = 0 := by
    cases result.signalled with
    | true => rfl
    | false => rfl
  simp only
  generalize (if result.signalled then [Event.signalled] else []) = events at *
  split
  · next payload harrival => exact keeps_handleRecord (harrives.record payload harrival) now hevents hq
  · next unit harrival =>
      exact keeps_handleMalformed (w := { w with reader := result.reader }) harrives.told
        (harrives.malformed unit harrival) hevents unit
  · exact keeps_of_told (.refl q) hevents harrives.told fun _ hv => nomatch hv
  · exact keeps_of_told (.refl q) hevents harrives.told fun _ hv => nomatch hv
  · exact keeps_of_told (.refl q) hevents harrives.told fun _ hv => nomatch hv
  · next harrival => exact keeps_await (harrives.waiting (Or.inl harrival)) now deadline hevents fun _ => rfl
  · next harrival => exact keeps_await (harrives.waiting (Or.inr harrival)) now deadline hevents fun _ => rfl

/-! ## A step of a worker -/

theorem keeps_begin (h : w.Owes c ps none) (hholds : w.Holds c q none) (now deadline : Instant) (stopping : Bool)
    (hq : q.Ticketed) (allowance : Nat) :
    (w.begin now deadline stopping q allowance).Keeps w.options
      { c with
        received := c.received ++ if allowance = 0 ∨ stopping = true then []
          else w.reader.taken (w.reader.next now (w.newest? q) allowance).reader } q ps := by
  unfold begin
  by_cases hspent : allowance = 0
  · rw [if_pos hspent, if_pos (Or.inl hspent), List.append_nil]
    exact keeps_of_phase h w.phase (.refl q) rfl (fun v hv => (Option.some.inj hv).symm) hholds
  · rw [if_neg hspent]
    by_cases hstop : stopping = true
    · rw [if_pos hstop, if_pos (Or.inr hstop), List.append_nil]
      exact keeps_of_told (.refl q) rfl h.told fun _ hv => nomatch hv
    · rw [if_neg hstop, if_neg (not_or.mpr ⟨hspent, hstop⟩)]
      exact keeps_takeFrame h now deadline hq allowance

/-- A step puts at most one record into the queue: the next one of the conversation. -/
theorem Serves.step (h : w.Serves c q ps) (now : Instant) (stopping : Bool) (hq : q.Ticketed) (allowance : Nat) :
    (w.step now stopping q allowance).Keeps w.options
      { c with received := c.received ++ w.readIn now stopping q allowance } q ps := by
  obtain ⟨held, howes, hholds⟩ := h
  have hsame : { c with received := c.received ++ [] } = c := by rw [List.append_nil]
  unfold Worker.step readIn
  cases hphase : w.phase with
  | starting =>
      simp only [Holds, hphase] at hholds
      subst hholds
      simp only [hsame]
      exact keeps_of_phase howes .ready (.refl q) rfl (fun v hv => (Option.some.inj hv).symm) rfl
  | ready =>
      have hnone := hholds
      simp only [Holds, hphase] at hnone
      subst hnone
      exact keeps_begin howes hholds now _ stopping hq allowance
  | waiting deadline =>
      have hnone := hholds
      simp only [Holds, hphase] at hnone
      subst hnone
      exact keeps_begin howes hholds now deadline stopping hq allowance
  | holding payload =>
      simp only [Holds, hphase] at hholds
      subst hholds
      simp only [hsame]
      exact keeps_handleRecord howes now rfl hq
  | pushing ticket =>
      have hwaits := hholds
      simp only [Holds, hphase] at hwaits
      obtain ⟨hlt, payload, rfl, hrecords⟩ := hwaits
      simp only [hsame]
      have hresumed := q.resumed_resume ticket
      split
      · next q' result hresume =>
          rw [hresume] at hresumed
          cases hresumed with
          | taken v hv hticket hflow =>
              rw [hrecords v hv hticket, howes.records] at hflow
              exact keeps_taken howes hflow rfl
          | failed e hflow => exact keeps_failed howes hflow e rfl
      · exact keeps_of_phase howes w.phase (.refl q) rfl (fun v hv => (Option.some.inj hv).symm) hholds

/-- Operations of others leave what a worker serves as it is. -/
theorem Serves.of_flow {taken given : List Record} (h : w.Serves c q ps) (hflow : q.Flow q' taken given) :
    w.Serves c q' ps := by
  obtain ⟨held, howes, hholds⟩ := h
  refine ⟨held, howes, ?_⟩
  unfold Holds at hholds ⊢
  cases hphase : w.phase with
  | pushing ticket =>
      rw [hphase] at hholds
      obtain ⟨hlt, payload, hheld, hrecords⟩ := hholds
      refine ⟨Nat.lt_of_lt_of_le hlt hflow.nextTicket, payload, hheld, fun v hv hticket => ?_⟩
      exact hrecords v (hflow.mem_of_lt hv (by rw [hticket]; exact hlt)) hticket
  | _ => rwa [hphase] at hholds

end Worker

end LogIntake
