import LogIntake.Connection.Reader
import LogIntake.Proofs.Framing.Decoder

/-!
# Readers and the streams they read

A reader feeds its decoder with what its source gives, and so follows the stream of all bytes that it has
read, in whatever pieces they came (`Following`). Each arrival is the next frame of that stream, or says that
there are no more.
-/

namespace LogIntake

/-! ## What a source still gives -/

def Source.Step.bytes : Source.Step → Bytes
  | .data part => part
  | _ => []

/-- All bytes that are still to come. -/
def Source.content (s : Source) : Bytes :=
  s.steps.flatMap Source.Step.bytes

def Source.Read.content : Source.Read → Bytes
  | .bytes part => part
  | _ => []

theorem Source.content_readSteps (now : Instant) (room : Nat) (pausedUntil : Option Instant) (signalled : Bool)
    (allowance : Nat) (steps : List Source.Step) :
    steps.flatMap Step.bytes
      = (readSteps now room pausedUntil signalled allowance steps).result.content
        ++ (readSteps now room pausedUntil signalled allowance steps).rest.content := by
  induction steps generalizing pausedUntil signalled allowance with
  | nil => rfl
  | cons s rest ih =>
      cases s with
      | data bytes =>
          unfold readSteps
          split
          · next hnil =>
              rw [hnil, ← ih]
              rfl
          · split
            · rfl
            · show bytes ++ _ = bytes.take room ++ (bytes.drop room ++ _)
              rw [← List.append_assoc, List.take_append_drop]
      | pause span =>
          unfold readSteps
          simp only
          split
          · rfl
          · split
            · exact ih none signalled (allowance - 1)
            · rfl
      | failure cause => rfl
      | signal => exact ih none true allowance
      | silence => rfl

theorem Source.content_of_read {s : Source} {now : Instant} {room allowance : Nat} {result : Read}
    (h : (s.read now room allowance).result = result) :
    s.content = result.content ++ (s.read now room allowance).rest.content := by
  subst h
  exact content_readSteps now (max 1 room) s.pausedUntil false allowance s.steps

namespace Reader

/-! ## Following a stream -/

/-- A reader has read so much of a stream and handed out these frames of it. -/
def Following (r : Reader) (framing : Framing) (limit : Nat) (received : Bytes) (given : List Frame) : Prop :=
  match r.stage with
  | .filling => r.decoder.Follows framing limit received given ∧ r.decoder.Quiet
  | .framing => r.decoder.Follows framing limit received given
  | .ending => r.decoder.Ends (framing.meaning limit received) given

/-- What an arrival tells of the stream that has been read. -/
def Result.Tells (result : Result) (framing : Framing) (limit : Nat) (received : Bytes) (given : List Frame) : Prop :=
  match result.arrival with
  | .frame frame => result.reader.Following framing limit received (given ++ [frame])
  | .blocked | .spent => result.reader.Following framing limit received given
  | .ended => (framing.meaning limit received).whole = given
  | .failed (.io _) => (framing.meaning limit received).frames = given
  | .failed (.desync _) =>
    (framing.meaning limit received).whole = given ∧ (framing.meaning limit received).ending = .desync

variable {r : Reader} {framing : Framing} {limit : Nat} {received : Bytes} {given : List Frame}

theorem following_start (source : Source) (storage : Storage) (framing : Framing) (limit : Nat) :
    Following { source, decoder := .start framing limit, storage } framing limit [] [] := by
  exact ⟨Decoder.follows_start framing limit, Decoder.quiet_start framing limit⟩

@[simp] theorem decoder_settle (r : Reader) (d : Decoder) (stage : Stage) (handed : Except Desync (Option Frame)) :
    (r.settle d stage handed).decoder = d := by
  unfold settle
  split <;> rfl

@[simp] theorem stage_settle (r : Reader) (d : Decoder) (stage : Stage) (handed : Except Desync (Option Frame)) :
    (r.settle d stage handed).stage = stage := by
  unfold settle
  split <;> rfl

@[simp] theorem source_settle (r : Reader) (d : Decoder) (stage : Stage) (handed : Except Desync (Option Frame)) :
    (r.settle d stage handed).source = r.source := by
  unfold settle
  split <;> rfl

theorem following_of_frame {d : Decoder} {frame : Frame} (h : r.decoder.Follows framing limit received given)
    (hd : r.decoder.next = (d, .ok (some frame))) :
    (r.settle d .framing (.ok (some frame))).Following framing limit received (given ++ [frame]) := by
  have hnext := h.next
  rw [hd] at hnext
  simp only [Following, stage_settle, decoder_settle]
  exact hnext

theorem following_of_none {d : Decoder} (h : r.decoder.Follows framing limit received given)
    (hd : r.decoder.next = (d, .ok none)) :
    (r.settle d .filling (.ok none)).Following framing limit received given := by
  have hnext := h.next
  have hquiet := (Decoder.handover_next h.sound).quiet
  rw [hd] at hnext hquiet
  rw [show given ++ handedFrames (.ok none) = given from List.append_nil given] at hnext
  simp only [Following, stage_settle, decoder_settle]
  exact ⟨hnext, hquiet rfl⟩

theorem meaning_of_error {d : Decoder} {desync : Desync} (h : r.decoder.Follows framing limit received given)
    (hd : r.decoder.next = (d, .error desync)) :
    (framing.meaning limit received).whole = given ∧ (framing.meaning limit received).ending = .desync := by
  have hnext := h.next
  have hlost := (Decoder.handover_next h.sound).lost desync
  rw [hd] at hnext hlost
  obtain ⟨hframes, hending⟩ := hnext.meaning_of_lost (hlost rfl) []
  rw [List.append_nil] at hframes hending
  refine ⟨?_, hending⟩
  rw [Parse.whole, hframes, hending, handedFrames, List.append_nil]
  exact List.append_nil given

theorem tells_finish (h : r.decoder.Ends (framing.meaning limit received) given) (signalled : Bool) (allowance : Nat) :
    (r.finish signalled allowance).Tells framing limit received given := by
  unfold finish
  split
  · next d frame hd =>
      have hframe := h.of_frame frame
      rw [hd] at hframe
      obtain ⟨-, hends⟩ := hframe rfl
      simpa only [Result.Tells, Following, stage_settle, decoder_settle] using hends
  · next d hd =>
      have hnothing := h.of_nothing
      rw [hd] at hnothing
      obtain ⟨-, -, hwhole, -⟩ := hnothing rfl
      exact hwhole
  · next d desync hd =>
      have hlost := h.of_lost desync
      rw [hd] at hlost
      obtain ⟨-, hwhole, htail⟩ := hlost rfl
      exact ⟨hwhole, Ending.eq_desync htail⟩

theorem source_finish (r : Reader) (signalled : Bool) (allowance : Nat) :
    (r.finish signalled allowance).reader.source = r.source := by
  unfold finish
  split
  · exact source_settle ..
  · exact source_settle ..
  · exact source_settle ..

theorem Following.isPrefix (h : r.Following framing limit received given) :
    given <+: (framing.meaning limit received).whole := by
  have hends : r.decoder.Ends (framing.meaning limit received) given := by
    cases hstage : r.stage with
    | filling =>
        simp only [Following, hstage] at h
        exact h.1.ends
    | framing =>
        simp only [Following, hstage] at h
        exact h.ends
    | ending =>
        simp only [Following, hstage] at h
        exact h
  obtain ⟨start, hwhole, -⟩ := hends.rest
  rw [hwhole]
  exact List.prefix_append ..

theorem Result.Tells.isPrefix {result : Result} (h : result.Tells framing limit received given) :
    given <+: (framing.meaning limit received).whole := by
  unfold Result.Tells at h
  split at h
  · exact (List.prefix_append ..).trans h.isPrefix
  · exact h.isPrefix
  · exact h.isPrefix
  · exact h ▸ List.prefix_refl _
  · rw [← h]
    exact List.prefix_append ..
  · exact h.1 ▸ List.prefix_refl _

/-- What has been read, and what is told of it. -/
def Result.Reads (result : Result) (source : Source) (framing : Framing) (limit : Nat) (received : Bytes)
    (given : List Frame) : Prop :=
  ∃ bytes, source.content = bytes ++ result.reader.source.content ∧
    result.Tells framing limit (received ++ bytes) given

/-- What has been read between two states of a reader. -/
def taken (r r' : Reader) : Bytes :=
  r.source.content.take (r.source.content.length - r'.source.content.length)

theorem taken_of_content {r r' : Reader} {bytes : Bytes} (h : r.source.content = bytes ++ r'.source.content) :
    r.taken r' = bytes := by
  rw [taken, h, List.length_append, Nat.add_sub_cancel]
  exact List.take_left

theorem Following.of_filling (h : r.Following framing limit received given) (hstage : r.stage = .filling) :
    r.decoder.Follows framing limit received given ∧ r.decoder.Quiet := by
  simpa only [Following, hstage] using h

theorem Result.Reads.of_content {result : Result} {before after : Source} {bytes : Bytes}
    (h : result.Reads after framing limit (received ++ bytes) given)
    (hcontent : before.content = bytes ++ after.content) :
    result.Reads before framing limit received given := by
  obtain ⟨more, hmore, htells⟩ := h
  refine ⟨bytes ++ more, ?_, ?_⟩
  · rw [hcontent, hmore, List.append_assoc]
  · rw [← List.append_assoc]
    exact htells

theorem Result.Tells.reads {result : Result} {source : Source} (h : result.Tells framing limit received given)
    (hcontent : source.content = result.reader.source.content) :
    result.Reads source framing limit received given := by
  refine ⟨[], hcontent, ?_⟩
  rw [List.append_nil]
  exact h

theorem reads_fill (now : Instant) (newest : Option Nat) (h : r.Following framing limit received given)
    (hstage : r.stage = .filling) (signalled : Bool) (allowance : Nat) :
    (fill now newest r signalled allowance).Reads r.source framing limit received given := by
  fun_induction fill now newest r signalled allowance generalizing received with
  | case1 r signalled allowance ready reading _ _ bytes hbytes fed d frame =>
      have hframe := following_of_frame (r := fed) ((h.of_filling hstage).1.feed bytes) ‹_›
      refine ⟨bytes, ?_, hframe⟩
      rw [source_settle]
      exact Source.content_of_read hbytes
  | case2 r signalled allowance ready reading _ _ bytes hbytes fed d hd =>
      rename_i ih
      have hnone := following_of_none (r := fed) ((h.of_filling hstage).1.feed bytes) hd
      refine (ih hnone (stage_settle ..)).of_content ?_
      rw [source_settle]
      exact Source.content_of_read hbytes
  | case3 r signalled allowance ready reading _ _ bytes hbytes fed d desync =>
      have herror := meaning_of_error (r := fed) ((h.of_filling hstage).1.feed bytes) ‹_›
      refine ⟨bytes, ?_, herror⟩
      rw [source_settle]
      exact Source.content_of_read hbytes
  | case4 r signalled allowance ready reading _ rest =>
      have hended : reading.result = .ended := ‹_›
      have htells := tells_finish (r := rest) (h.of_filling hstage).1.ends
      refine (htells _ _).reads ?_
      rw [source_finish]
      exact Source.content_of_read hended
  | case5 r signalled allowance ready reading _ _ cause =>
      have hfailed : reading.result = .failed cause := ‹_›
      obtain ⟨hfollows, hquiet⟩ := h.of_filling hstage
      obtain ⟨-, -, hframes, -⟩ := hfollows.meaning_of_quiet hquiet
      exact Result.Tells.reads hframes (Source.content_of_read hfailed)
  | case6 r signalled allowance ready reading =>
      have hblocked : reading.result = .blocked := ‹_›
      exact Result.Tells.reads h (Source.content_of_read hblocked)
  | case7 r signalled allowance ready reading =>
      have hspent : reading.result = .spent := ‹_›
      exact Result.Tells.reads h (Source.content_of_read hspent)

/-- The next arrival is what the stream means. -/
theorem Following.next (h : r.Following framing limit received given) (now : Instant) (newest : Option Nat)
    (allowance : Nat) : (r.next now newest allowance).Reads r.source framing limit received given := by
  unfold Reader.next
  cases hstage : r.stage with
  | filling => exact reads_fill now newest h hstage false allowance
  | ending =>
      simp only [Following, hstage] at h
      exact (tells_finish h false allowance).reads (by rw [source_finish])
  | framing =>
      simp only [Following, hstage] at h
      simp only
      split
      · next d frame hd => exact Result.Tells.reads (following_of_frame h hd) (by rw [source_settle])
      · next d hd =>
          have hfill := reads_fill now newest (following_of_none h hd) (stage_settle ..) false allowance
          rwa [source_settle] at hfill
      · next d desync hd => exact Result.Tells.reads (meaning_of_error h hd) (by rw [source_settle])

end Reader

end LogIntake
