import LogIntake.Proofs.Connection.Reader
import LogIntake.Proofs.Framing.Retention

/-!
# What connections retain

A reader reads only when its decoder has asked for more bytes. So what a connection holds at any time, whatever its
peer sends and however it comes, is at most what a decoder that asks for more holds and what one read has added
(`retention_bounded`).
-/

namespace LogIntake

namespace Reader

/-! ## The reads of a reader -/

/-- What a read gives to a reader that has made room for it. -/
def reading (r : Reader) (now : Instant) (newest : Option Nat) (allowance : Nat) : Source.Reading :=
  let ready := (r.reserve newest r.decoder.wanted).reserve newest 1
  r.source.read now (ready.storage.room r.decoder.buffer.length) allowance

/-- A reader whose decoder has been fed with what a read has given, and has asked for more. -/
def asking (r : Reader) (newest : Option Nat) (rest : Source) (bytes : Bytes) (d : Decoder) : Reader :=
  let ready := (r.reserve newest r.decoder.wanted).reserve newest 1
  settle { ready with source := rest, decoder := r.decoder.feed bytes } d .filling (.ok none)

/-- What the reads give, one after the other, by which a reader fills its decoder until there is a frame or no more
comes. -/
def pieces (now : Instant) (newest : Option Nat) (r : Reader) (allowance : Nat) : List Bytes :=
  let reading := r.reading now newest allowance
  match _h : reading.result with
  | .bytes bytes =>
    match (r.decoder.feed bytes).next with
    | (d, .ok none) => bytes :: pieces now newest (r.asking newest reading.rest bytes d) reading.allowance
    | _ => [bytes]
  | _ => []
  termination_by r.source.weight
  decreasing_by
    rw [asking, source_settle]
    exact Source.weight_read _h

/-- What the reads of one call give. -/
def readsOf (r : Reader) (now : Instant) (newest : Option Nat) (allowance : Nat) : List Bytes :=
  match r.stage with
  | .filling => r.pieces now newest allowance
  | .ending => []
  | .framing =>
    match r.decoder.next with
    | (d, .ok none) => (r.settle d .filling (.ok none)).pieces now newest allowance
    | _ => []

structure Call where
  now : Instant
  newest : Option Nat
  allowance : Nat
  deriving DecidableEq, Repr

/-- A reader after some calls, and what its reads have given; it is not called again after a failure. -/
def after (r : Reader) : List Call → Reader × List Bytes
  | [] => (r, [])
  | c :: calls =>
    let result := r.next c.now c.newest c.allowance
    let reads := r.readsOf c.now c.newest c.allowance
    match result.arrival with
    | .failed _ => (result.reader, reads)
    | _ =>
      let (last, more) := result.reader.after calls
      (last, reads ++ more)

theorem pieces_of_bytes {r : Reader} {now : Instant} {newest : Option Nat} {allowance : Nat} {bytes : Bytes}
    (h : (r.reading now newest allowance).result = .bytes bytes) :
    r.pieces now newest allowance = match (r.decoder.feed bytes).next with
      | (d, .ok none) => bytes :: (r.asking newest (r.reading now newest allowance).rest bytes d).pieces now newest
          (r.reading now newest allowance).allowance
      | _ => [bytes] := by
  rw [pieces]
  split
  · next bytes' hbytes =>
      obtain rfl : bytes' = bytes := Source.Read.bytes.inj (hbytes.symm.trans h)
      rfl
  · next hne => exact absurd h (hne bytes)

theorem pieces_of_content_nil {r : Reader} {now : Instant} {newest : Option Nat} {allowance : Nat}
    {result : Source.Read} (h : (r.reading now newest allowance).result = result)
    (hne : ∀ bytes, result ≠ .bytes bytes) : r.pieces now newest allowance = [] := by
  rw [pieces]
  split
  · next bytes hbytes => exact absurd (h.symm.trans hbytes) (hne bytes)
  · rfl

/-- The reads give the bytes of the source in their order, and leave the rest. -/
theorem content_fill (now : Instant) (newest : Option Nat) (r : Reader) (signalled : Bool) (allowance : Nat) :
    r.source.content
      = (r.pieces now newest allowance).flatten ++ (fill now newest r signalled allowance).reader.source.content := by
  fun_induction fill now newest r signalled allowance with
  | case1 r signalled allowance ready reading _ _ bytes hbytes fed d frame hd =>
      have hread : (r.reading now newest allowance).result = .bytes bytes := hbytes
      have hnext : (r.decoder.feed bytes).next = (d, .ok (some frame)) := hd
      rw [pieces_of_bytes hread, hnext, source_settle, List.flatten_singleton]
      exact Source.content_of_read hbytes
  | case2 r signalled allowance ready reading _ _ bytes hbytes fed d hd =>
      rename_i ih
      have hread : (r.reading now newest allowance).result = .bytes bytes := hbytes
      have hnext : (r.decoder.feed bytes).next = (d, .ok none) := hd
      rw [source_settle] at ih
      rw [pieces_of_bytes hread, hnext, List.flatten_cons, List.append_assoc]
      exact (Source.content_of_read hbytes).trans (congrArg (bytes ++ ·) ih)
  | case3 r signalled allowance ready reading _ _ bytes hbytes fed d desync hd =>
      have hread : (r.reading now newest allowance).result = .bytes bytes := hbytes
      have hnext : (r.decoder.feed bytes).next = (d, .error desync) := hd
      rw [pieces_of_bytes hread, hnext, source_settle, List.flatten_singleton]
      exact Source.content_of_read hbytes
  | case4 r signalled allowance ready reading _ rest hended =>
      have hread : (r.reading now newest allowance).result = .ended := hended
      rw [pieces_of_content_nil hread fun _ => Source.Read.noConfusion, source_finish]
      exact Source.content_of_read hended
  | case5 r signalled allowance ready reading _ _ cause hfailed =>
      have hread : (r.reading now newest allowance).result = .failed cause := hfailed
      rw [pieces_of_content_nil hread fun _ => Source.Read.noConfusion]
      exact Source.content_of_read hfailed
  | case6 r signalled allowance ready reading _ _ hblocked =>
      have hread : (r.reading now newest allowance).result = .blocked := hblocked
      rw [pieces_of_content_nil hread fun _ => Source.Read.noConfusion]
      exact Source.content_of_read hblocked
  | case7 r signalled allowance ready reading _ _ hspent =>
      have hread : (r.reading now newest allowance).result = .spent := hspent
      rw [pieces_of_content_nil hread fun _ => Source.Read.noConfusion]
      exact Source.content_of_read hspent

theorem content_next (r : Reader) (now : Instant) (newest : Option Nat) (allowance : Nat) :
    r.source.content
      = (r.readsOf now newest allowance).flatten ++ (r.next now newest allowance).reader.source.content := by
  unfold Reader.next readsOf
  cases hstage : r.stage with
  | filling => exact content_fill now newest r false allowance
  | ending => exact congrArg Source.content (source_finish r false allowance).symm
  | framing =>
      simp only
      split
      · next d hd =>
          have hfill := content_fill now newest (r.settle d .filling (.ok none)) false allowance
          rw [source_settle] at hfill
          simpa only [hd] using hfill
      · next hne =>
          split
          · rw [source_settle]
            rfl
          · next d hd => exact (hne d hd).elim
          · rw [source_settle]
            rfl

theorem content_after (r : Reader) (calls : List Call) :
    r.source.content = (r.after calls).2.flatten ++ (r.after calls).1.source.content := by
  induction calls generalizing r with
  | nil => rfl
  | cons c calls ih =>
      have hnext := r.content_next c.now c.newest c.allowance
      unfold after
      simp only
      split
      · exact hnext
      · rw [List.flatten_append, List.append_assoc, ← ih]
        exact hnext

/-! ## What is held between reads -/

variable {framing : Framing} {limit : Nat} {r : Reader} {last : Bytes}

/-- A reader that is about to read holds what a decoder holds that asks for more; otherwise one read may have been
added to that. -/
structure Holds (framing : Framing) (limit : Nat) (r : Reader) (last : Bytes) : Prop where
  sparing : r.decoder.Sparing limit framing
  added : r.decoder.buffer.length ≤ framing.retained limit + last.length
  asks : r.stage ≠ .framing → r.decoder.buffer.length ≤ framing.retained limit

/-- What a call leaves, when its last read has given `last`. -/
structure Result.Holds (result : Result) (framing : Framing) (limit : Nat) (last : Bytes) : Prop where
  added : result.reader.decoder.buffer.length ≤ framing.retained limit + last.length
  goesOn : (∀ cause, result.arrival ≠ .failed cause) → result.reader.Holds framing limit last

theorem Result.Holds.of_bound {result : Result} (hsparing : result.reader.decoder.Sparing limit framing)
    (h : result.reader.decoder.buffer.length ≤ framing.retained limit) : result.Holds framing limit last := by
  have hadded := Nat.le_add_right_of_le (k := last.length) h
  exact ⟨hadded, fun _ => ⟨hsparing, hadded, fun _ => h⟩⟩

theorem holds_of_frame {d : Decoder} {handed : Except Desync (Option Frame)} {arrival : Arrival} {signalled : Bool}
    {allowance : Nat} (hsparing : d.Sparing limit framing)
    (hadded : d.buffer.length ≤ framing.retained limit + last.length) :
    (Result.mk (r.settle d .framing handed) arrival signalled allowance).Holds framing limit last := by
  have hdecoder := decoder_settle r d .framing handed
  refine ⟨?_, fun _ => ⟨?_, ?_, fun hne => absurd (stage_settle ..) hne⟩⟩
  · rwa [hdecoder]
  · rwa [hdecoder]
  · rwa [hdecoder]

theorem holds_of_failure {d : Decoder} {stage : Stage} {handed : Except Desync (Option Frame)} {cause : FrameError}
    {signalled : Bool} {allowance : Nat} (hadded : d.buffer.length ≤ framing.retained limit + last.length) :
    (Result.mk (r.settle d stage handed) (.failed cause) signalled allowance).Holds framing limit last := by
  refine ⟨?_, fun hgoes => absurd rfl (hgoes _)⟩
  rwa [decoder_settle]

theorem holds_finish (h : r.decoder.Sparing limit framing) (hasks : r.decoder.buffer.length ≤ framing.retained limit)
    (signalled : Bool) (allowance : Nat) : (r.finish signalled allowance).Holds framing limit last := by
  obtain ⟨hsparing, hspares⟩ := h.finish
  have hless := Nat.le_trans hspares.suffix.length_le hasks
  unfold finish
  split
  · next d frame hd =>
      rw [hd] at hsparing hless
      exact .of_bound (by rwa [decoder_settle]) (by rwa [decoder_settle])
  · next d hd =>
      rw [hd] at hsparing hless
      exact .of_bound (by rwa [decoder_settle]) (by rwa [decoder_settle])
  · next d desync hd =>
      rw [hd] at hsparing hless
      exact .of_bound (by rwa [decoder_settle]) (by rwa [decoder_settle])

/-- The decoder holds what it has been fed with last when a frame has come, or a failure. -/
theorem holds_fed {d e : Decoder} {handed : Except Desync (Option Frame)} {bytes : Bytes}
    (h : d.Sparing limit framing) (hasks : d.buffer.length ≤ framing.retained limit)
    (hnext : (d.feed bytes).next = (e, handed)) :
    e.Sparing limit framing ∧ e.buffer.length ≤ framing.retained limit + bytes.length ∧
      (handed = .ok none → e.buffer.length ≤ framing.retained limit) := by
  obtain ⟨hsparing, hspares⟩ := (h.feed bytes).next
  rw [hnext] at hsparing hspares
  have hless : e.buffer.length ≤ (d.feed bytes).buffer.length := hspares.suffix.length_le
  rw [Decoder.buffer_feed, List.length_append] at hless
  exact ⟨hsparing, by omega, hspares.asks⟩

theorem holds_fill (now : Instant) (newest : Option Nat) (h : r.decoder.Sparing limit framing)
    (hasks : r.decoder.buffer.length ≤ framing.retained limit) (signalled : Bool) (allowance : Nat) (last : Bytes) :
    (fill now newest r signalled allowance).Holds framing limit ((r.pieces now newest allowance).getLastD last) := by
  fun_induction fill now newest r signalled allowance generalizing last with
  | case1 r signalled allowance ready reading _ _ bytes hbytes fed d frame hd =>
      have hread : (r.reading now newest allowance).result = .bytes bytes := hbytes
      have hnext : (r.decoder.feed bytes).next = (d, .ok (some frame)) := hd
      obtain ⟨hsparing, hadded, -⟩ := holds_fed h hasks hnext
      rw [pieces_of_bytes hread, hnext]
      exact holds_of_frame hsparing hadded
  | case2 r signalled allowance ready reading _ _ bytes hbytes fed d hd =>
      rename_i ih
      have hread : (r.reading now newest allowance).result = .bytes bytes := hbytes
      have hnext : (r.decoder.feed bytes).next = (d, .ok none) := hd
      obtain ⟨hsparing, -, hquiet⟩ := holds_fed h hasks hnext
      rw [pieces_of_bytes hread, hnext, List.getLastD_cons]
      exact ih (by rwa [decoder_settle]) (by rw [decoder_settle]; exact hquiet rfl) bytes
  | case3 r signalled allowance ready reading _ _ bytes hbytes fed d desync hd =>
      have hread : (r.reading now newest allowance).result = .bytes bytes := hbytes
      have hnext : (r.decoder.feed bytes).next = (d, .error desync) := hd
      obtain ⟨-, hadded, -⟩ := holds_fed h hasks hnext
      rw [pieces_of_bytes hread, hnext]
      exact holds_of_failure hadded
  | case4 r signalled allowance ready reading _ rest => exact holds_finish (r := rest) h hasks ..
  | case5 r signalled allowance ready reading _ _ cause => exact .of_bound h hasks
  | case6 r signalled allowance ready reading => exact .of_bound h hasks
  | case7 r signalled allowance ready reading => exact .of_bound h hasks

theorem Holds.next (h : r.Holds framing limit last) (now : Instant) (newest : Option Nat) (allowance : Nat) :
    (r.next now newest allowance).Holds framing limit ((r.readsOf now newest allowance).getLastD last) := by
  unfold Reader.next readsOf
  cases hstage : r.stage with
  | filling => exact holds_fill now newest h.sparing (h.asks (by simp [hstage])) false allowance last
  | ending => exact holds_finish h.sparing (h.asks (by simp [hstage])) false allowance
  | framing =>
      obtain ⟨hsparing, hspares⟩ := h.sparing.next
      have hless := Nat.le_trans hspares.suffix.length_le h.added
      simp only
      split
      · next d frame hd =>
          rw [hd] at hsparing hless
          simp only [hd]
          exact holds_of_frame hsparing hless
      · next d hd =>
          rw [hd] at hsparing hspares
          simp only [hd]
          refine holds_fill now newest ?_ ?_ false allowance last
          · rwa [decoder_settle]
          · rw [decoder_settle]
            exact hspares.asks rfl
      · next d desync hd =>
          rw [hd] at hless
          simp only [hd]
          exact holds_of_failure hless

theorem Holds.after (h : r.Holds framing limit last) (calls : List Call) :
    (r.after calls).1.decoder.buffer.length ≤ framing.retained limit + ((r.after calls).2.getLastD last).length := by
  induction calls generalizing r last with
  | nil => exact h.added
  | cons c calls ih =>
      have hnext := h.next c.now c.newest c.allowance
      unfold Reader.after
      simp only
      split
      · exact hnext.added
      · next hgoes =>
          have hmore := ih (hnext.goesOn hgoes)
          rwa [List.getLastD_eq_getLast?, List.getLast?_append, Option.getD_or, ← List.getLastD_eq_getLast?,
            ← List.getLastD_eq_getLast?]

theorem holds_start (source : Source) (storage : Storage) (framing : Framing) (limit : Nat) :
    Holds framing limit { source, decoder := .start framing limit, storage } [] := by
  have hnil : (Decoder.start framing limit).buffer = [] := by cases framing <;> rfl
  have hzero : (Decoder.start framing limit).buffer.length ≤ framing.retained limit := by
    rw [hnil]
    exact Nat.zero_le _
  exact ⟨Decoder.sparing_start framing limit, hzero, fun _ => hzero⟩

end Reader

/-- However a decoder is used, no call adds bytes to its buffer, what asks for more bytes holds hardly more than the
limit, and sizes are told apart by the limit. So a connection holds at most that much and what its last read has
given. -/
theorem Framing.retention_bounded (framing : Framing) (limit : Nat) :
    (∀ ops : List Decoder.Operation,
      let (d, answers) := (Decoder.start framing limit).use ops
      (∀ answer ∈ answers, ∀ frame, answer = .ok (some frame) → frame.Within limit) ∧
        d.next.1.buffer <:+ d.buffer ∧ d.finish.1.buffer <:+ d.buffer ∧
        (d.next.2 = .ok none → d.next.1.buffer.length ≤ framing.retained limit)) ∧
      ∀ (source : Source) (storage : Storage) (calls : List Reader.Call),
        let (r, reads) := Reader.after { source, decoder := .start framing limit, storage } calls
        source.content = reads.flatten ++ r.source.content ∧
          r.decoder.buffer.length ≤ framing.retained limit + (reads.getLastD []).length := by
  refine ⟨fun ops => ?_, fun source storage calls => ⟨?_, ?_⟩⟩
  · obtain ⟨hsparing, hwithin⟩ := Decoder.sparing_use framing limit ops
    have hnext := hsparing.next.2
    exact ⟨hwithin, hnext.suffix, hsparing.finish.2.suffix, hnext.asks⟩
  · exact Reader.content_after { source, decoder := .start framing limit, storage } calls
  · exact (Reader.holds_start source storage framing limit).after calls

end LogIntake
