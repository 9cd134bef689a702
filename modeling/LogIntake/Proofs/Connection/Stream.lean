import LogIntake.Proofs.Connection.Reader
import LogIntake.Proofs.Framing.Answers

/-!
# How streams end for their readers

The stream of a connection is all that comes before a failure to read, or before the end if no read fails. A
reader that is on its way through a stream (`Along`) has still so much of it before it, and what it finds at
the end is what the stream as a whole means.
-/

namespace LogIntake

namespace Source

/-! ## The stream of a source -/

def Step.fault? : Step → Option IoError
  | .failure cause => some cause
  | _ => none

/-- The bytes that are still to come before a failure. -/
def stream (s : Source) : Bytes :=
  (s.steps.takeWhile (·.fault?.isNone)).flatMap Step.bytes

/-- The failure that ends the stream, unless it ends well. -/
def fault? (s : Source) : Option IoError :=
  s.steps.findSome? Step.fault?

variable {steps : List Step} {pausedUntil : Option Instant}

theorem stream_cons {step : Step} (pausedUntil' : Option Instant) (h : step.fault? = none) :
    stream ⟨step :: steps, pausedUntil⟩ = step.bytes ++ stream ⟨steps, pausedUntil'⟩ := by
  unfold stream
  rw [List.takeWhile_cons_of_pos (by rw [h]; rfl), List.flatMap_cons]

theorem fault?_cons {step : Step} (pausedUntil' : Option Instant) (h : step.fault? = none) :
    fault? ⟨step :: steps, pausedUntil⟩ = fault? ⟨steps, pausedUntil'⟩ := by
  unfold fault?
  rw [List.findSome?_cons, h]

/-- A read that gives `result` and leaves `rest` finds so much of a stream and its failure. -/
def Read.Leaves (result : Read) (rest : Source) (stream : Bytes) (fault : Option IoError) : Prop :=
  match result with
  | .bytes part => stream = part ++ rest.stream ∧ fault = rest.fault?
  | .ended => stream = [] ∧ fault = none ∧ rest.stream = [] ∧ rest.fault? = none
  | .failed cause => stream = [] ∧ fault = some cause
  | .blocked | .spent => stream = rest.stream ∧ fault = rest.fault?

theorem leaves_readSteps (now : Instant) (room : Nat) (pausedUntil pausedUntil' : Option Instant) (signalled : Bool)
    (allowance : Nat) (steps : List Step) :
    let reading := readSteps now room pausedUntil signalled allowance steps
    reading.result.Leaves reading.rest (stream ⟨steps, pausedUntil'⟩) (fault? ⟨steps, pausedUntil'⟩) := by
  induction steps generalizing pausedUntil signalled allowance with
  | nil => exact ⟨rfl, rfl, rfl, rfl⟩
  | cons step rest ih =>
      cases step with
      | data bytes =>
          rw [stream_cons pausedUntil' rfl, fault?_cons pausedUntil' rfl]
          unfold readSteps
          split
          · next hnil =>
              rw [hnil]
              exact ih none signalled allowance
          · split
            · exact ⟨rfl, rfl⟩
            · refine ⟨?_, (fault?_cons pausedUntil' rfl).symm⟩
              rw [stream_cons pausedUntil' rfl, ← List.append_assoc]
              exact congrArg (· ++ _) (List.take_append_drop room bytes).symm
      | pause span =>
          unfold readSteps
          simp only
          split
          · exact ⟨rfl, rfl⟩
          · split
            · exact ih none signalled (allowance - 1)
            · exact ⟨rfl, rfl⟩
      | failure cause => exact ⟨rfl, rfl⟩
      | signal => exact ih none true allowance
      | silence => exact ⟨rfl, rfl⟩

theorem leaves_of_read {s : Source} {now : Instant} {room allowance : Nat} {result : Read}
    (h : (s.read now room allowance).result = result) :
    result.Leaves (s.read now room allowance).rest s.stream s.fault? := by
  subst h
  exact leaves_readSteps now (max 1 room) s.pausedUntil s.pausedUntil false allowance s.steps

end Source

/-! ## Frames of a stream that may fail -/

/-- The frames of a stream. One that fails does not end, and so the frames that the end would bring do not
come. -/
def Parse.until (p : Parse) (fault : Option IoError) : List Frame :=
  if fault.isSome then p.frames else p.whole

theorem Parse.until_of_desync {p : Parse} (h : p.ending = .desync) (fault : Option IoError) :
    p.until fault = p.frames := by
  cases fault with
  | some cause => rfl
  | none =>
      show p.whole = p.frames
      rw [Parse.whole, h]
      exact List.append_nil _

namespace Reader

/-! ## On the way through a stream -/

/-- A reader has handed out `given` of a stream, and has the rest of the stream before it. -/
structure Along (r : Reader) (framing : Framing) (limit : Nat) (stream : Bytes) (fault : Option IoError)
    (given : List Frame) : Prop where
  following : ∃ received, r.Following framing limit received given ∧ stream = received ++ r.source.stream
  failure : r.source.fault? = fault
  ending : r.stage = .ending → r.source.stream = [] ∧ fault = none
  discarded : r.decoder.discarded = 0

/-- What an arrival tells of the stream as a whole. -/
def Result.Shows (result : Result) (framing : Framing) (limit : Nat) (stream : Bytes) (fault : Option IoError)
    (given : List Frame) : Prop :=
  match result.arrival with
  | .frame frame => result.reader.Along framing limit stream fault (given ++ [frame])
  | .blocked | .spent => result.reader.Along framing limit stream fault given
  | .ended => fault = none ∧ (framing.meaning limit stream).whole = given ∧
      (framing.meaning limit stream).ending.tail? = some result.reader.decoder.discarded
  | .failed (.io cause) => fault = some cause ∧ (framing.meaning limit stream).frames = given ∧
      (framing.meaning limit stream).ending ≠ .desync
  | .failed (.desync reason) => (framing.meaning limit stream).frames = given ∧
      (framing.meaning limit stream).ending = .desync ∧ ∃ desync : Desync, desync.reason = reason

variable {r : Reader} {framing : Framing} {limit : Nat} {stream received : Bytes} {fault : Option IoError}
  {given : List Frame}

theorem along_start (steps : List Source.Step) (storage : Storage) (framing : Framing) (limit : Nat) :
    Along { source := { steps }, decoder := .start framing limit, storage } framing limit
      (Source.mk steps none).stream (Source.mk steps none).fault? [] := by
  refine ⟨⟨[], following_start _ storage framing limit, rfl⟩, rfl, fun hstage => ?_, ?_⟩
  · cases hstage
  · cases framing <;> rfl

/-- The frames handed out come first among all that the stream will give. -/
theorem Along.isPrefix (h : r.Along framing limit stream fault given) :
    given <+: (framing.meaning limit stream).until fault := by
  obtain ⟨received, hfollowing, hstream⟩ := h.following
  have hbefore : r.decoder.Follows framing limit received given →
      given <+: (framing.meaning limit stream).until fault := by
    intro hfollows
    obtain ⟨start, hframes, -⟩ := hfollows.yields r.source.stream
    rw [← hstream] at hframes
    have hgiven : given <+: (framing.meaning limit stream).frames := hframes ▸ List.prefix_append ..
    cases fault with
    | some cause => exact hgiven
    | none => exact hgiven.trans (List.prefix_append ..)
  cases hstage : r.stage with
  | filling => exact hbefore (hfollowing.of_filling hstage).1
  | framing =>
      simp only [Following, hstage] at hfollowing
      exact hbefore hfollowing
  | ending =>
      obtain ⟨hnil, hnone⟩ := h.ending hstage
      rw [hnil, List.append_nil] at hstream
      rw [hnone, hstream]
      exact hfollowing.isPrefix

theorem discarded_next {d e : Decoder} {handed : Except Desync (Option Frame)} (hs : d.Sound)
    (h : d.next = (e, handed)) : e.discarded = d.discarded := by
  have hnext := (Decoder.handover_next hs).discarded
  rwa [h] at hnext

theorem along_settle {d : Decoder} {stage : Stage} {handed : Except Desync (Option Frame)}
    (hfollowing : (r.settle d stage handed).Following framing limit received given)
    (hstream : stream = received ++ r.source.stream) (hfault : r.source.fault? = fault) (hstage : stage ≠ .ending)
    (hdiscarded : d.discarded = 0) : (r.settle d stage handed).Along framing limit stream fault given := by
  refine ⟨⟨received, hfollowing, ?_⟩, ?_, fun hending => ?_, ?_⟩
  · rw [source_settle]
    exact hstream
  · rw [source_settle]
    exact hfault
  · rw [stage_settle] at hending
    exact absurd hending hstage
  · rw [decoder_settle]
    exact hdiscarded

/-- Whatever comes behind a loss of synchronisation gives nothing more. -/
theorem shows_of_error {d : Decoder} {desync : Desync} {more : Bytes} {result : Result}
    (h : r.decoder.Follows framing limit received given) (hd : r.decoder.next = (d, .error desync))
    (hstream : stream = received ++ more) (hresult : result.arrival = .failed (.desync desync.reason)) :
    result.Shows framing limit stream fault given := by
  have hnext := h.next
  have hlost := (Decoder.handover_next h.sound).lost desync
  rw [hd] at hnext hlost
  obtain ⟨hframes, hending⟩ := hnext.meaning_of_lost (hlost rfl) more
  rw [Result.Shows, hresult, hstream]
  refine ⟨?_, hending, desync, rfl⟩
  rw [hframes]
  exact List.append_nil given

theorem shows_finish (h : r.decoder.Ends (framing.meaning limit stream) given) (hnil : r.source.stream = [])
    (hfault : r.source.fault? = none) (hdiscarded : r.decoder.discarded = 0) (signalled : Bool) (allowance : Nat) :
    (r.finish signalled allowance).Shows framing limit stream none given := by
  unfold finish
  split
  · next d frame hd =>
      have hframe := h.of_frame frame
      rw [hd] at hframe
      obtain ⟨hsame, hends⟩ := hframe rfl
      refine ⟨⟨stream, ?_, ?_⟩, ?_, fun _ => ⟨?_, rfl⟩, ?_⟩
      · simpa only [Following, stage_settle, decoder_settle] using hends
      · rw [source_settle, hnil, List.append_nil]
      · rw [source_settle]
        exact hfault
      · rw [source_settle]
        exact hnil
      · rw [decoder_settle]
        exact hsame.trans hdiscarded
  · next d hd =>
      have hnothing := h.of_nothing
      rw [hd] at hnothing
      obtain ⟨tail, htail, hwhole, hending⟩ := hnothing rfl
      refine ⟨rfl, hwhole, ?_⟩
      rw [decoder_settle, hending, htail, hdiscarded, Nat.zero_add]
  · next d desync hd =>
      have hlost := h.of_lost desync
      rw [hd] at hlost
      obtain ⟨-, hwhole, htail⟩ := hlost rfl
      have hending := Ending.eq_desync htail
      refine ⟨?_, hending, desync, rfl⟩
      rw [← hwhole]
      exact ((framing.meaning limit stream).until_of_desync hending none).symm

theorem Along.of_filling (h : r.Along framing limit stream fault given) (hstage : r.stage = .filling) :
    ∃ received, r.decoder.Follows framing limit received given ∧ r.decoder.Quiet ∧
      stream = received ++ r.source.stream := by
  obtain ⟨received, hfollowing, hstream⟩ := h.following
  obtain ⟨hfollows, hquiet⟩ := hfollowing.of_filling hstage
  exact ⟨received, hfollows, hquiet, hstream⟩

/-- A read that finds nothing leaves a reader where it was. -/
theorem Along.of_leaves {r' : Reader} (h : r.Along framing limit stream fault given) (hdecoder : r'.decoder = r.decoder)
    (hstage : r'.stage = r.stage)
    (hleaves : r.source.stream = r'.source.stream ∧ r.source.fault? = r'.source.fault?) :
    r'.Along framing limit stream fault given := by
  obtain ⟨received, hfollowing, hstream⟩ := h.following
  obtain ⟨hrest, hsame⟩ := hleaves
  refine ⟨⟨received, ?_, hstream.trans (by rw [hrest])⟩, hsame.symm.trans h.failure, fun hending => ?_, ?_⟩
  · simpa only [Following, hdecoder, hstage] using hfollowing
  · rw [← hrest]
    exact h.ending (hstage.symm.trans hending)
  · rw [hdecoder]
    exact h.discarded

theorem shows_fill (now : Instant) (newest : Option Nat) (h : r.Along framing limit stream fault given)
    (hstage : r.stage = .filling) (signalled : Bool) (allowance : Nat) :
    (fill now newest r signalled allowance).Shows framing limit stream fault given := by
  fun_induction fill now newest r signalled allowance with
  | case1 r signalled allowance ready reading _ _ bytes hbytes fed d frame hd =>
      obtain ⟨received, hfollows, -, hstream⟩ := h.of_filling hstage
      obtain ⟨hrest, hsame⟩ := Source.leaves_of_read hbytes
      have hfed := hfollows.feed bytes
      refine along_settle (following_of_frame (r := fed) hfed hd) ?_ (hsame.symm.trans h.failure) (by simp) ?_
      · rw [hstream, hrest, List.append_assoc]
      · rw [discarded_next hfed.sound hd, Decoder.discarded_feed]
        exact h.discarded
  | case2 r signalled allowance ready reading _ _ bytes hbytes fed d hd ih =>
      obtain ⟨received, hfollows, -, hstream⟩ := h.of_filling hstage
      obtain ⟨hrest, hsame⟩ := Source.leaves_of_read hbytes
      have hfed := hfollows.feed bytes
      refine ih (along_settle (following_of_none (r := fed) hfed hd) ?_ (hsame.symm.trans h.failure) (by simp) ?_)
        (stage_settle ..)
      · rw [hstream, hrest, List.append_assoc]
      · rw [discarded_next hfed.sound hd, Decoder.discarded_feed]
        exact h.discarded
  | case3 r signalled allowance ready reading _ _ bytes hbytes fed d desync hd =>
      obtain ⟨received, hfollows, -, hstream⟩ := h.of_filling hstage
      obtain ⟨hrest, -⟩ := Source.leaves_of_read hbytes
      have hstream' : stream = received ++ bytes ++ reading.rest.stream := by
        rw [hstream, hrest, List.append_assoc]
      exact shows_of_error (r := fed) (hfollows.feed bytes) hd hstream' rfl
  | case4 r signalled allowance ready reading _ rest hended =>
      obtain ⟨received, hfollows, -, hstream⟩ := h.of_filling hstage
      obtain ⟨hnil, hnone, hrest, hfault⟩ := Source.leaves_of_read hended
      rw [hnil, List.append_nil] at hstream
      rw [← h.failure, hnone, hstream]
      exact shows_finish (r := rest) hfollows.ends hrest hfault h.discarded _ _
  | case5 r signalled allowance ready reading _ _ cause hfailed =>
      obtain ⟨received, hfollows, hquiet, hstream⟩ := h.of_filling hstage
      obtain ⟨hnil, hsome⟩ := Source.leaves_of_read hfailed
      rw [hnil, List.append_nil] at hstream
      obtain ⟨last, tail, hframes, hending⟩ := hfollows.meaning_of_quiet hquiet
      rw [← hstream] at hframes hending
      exact ⟨h.failure.symm.trans hsome, hframes, by simp [hending]⟩
  | case6 r signalled allowance ready reading _ rest hblocked =>
      exact h.of_leaves rfl rfl (Source.leaves_of_read hblocked)
  | case7 r signalled allowance ready reading _ rest hspent =>
      exact h.of_leaves rfl rfl (Source.leaves_of_read hspent)

/-- The next arrival is what the stream as a whole has next. -/
theorem Along.next (h : r.Along framing limit stream fault given) (now : Instant) (newest : Option Nat)
    (allowance : Nat) : (r.next now newest allowance).Shows framing limit stream fault given := by
  unfold Reader.next
  obtain ⟨received, hfollowing, hstream⟩ := h.following
  cases hstage : r.stage with
  | filling => exact shows_fill now newest h hstage false allowance
  | ending =>
      obtain ⟨hnil, hnone⟩ := h.ending hstage
      rw [hnil, List.append_nil] at hstream
      simp only [Following, hstage] at hfollowing
      subst hstream hnone
      exact shows_finish hfollowing hnil h.failure h.discarded false allowance
  | framing =>
      simp only [Following, hstage] at hfollowing
      simp only
      split
      · next d frame hd =>
          exact along_settle (following_of_frame hfollowing hd) hstream h.failure nofun
            ((discarded_next hfollowing.sound hd).trans h.discarded)
      · next d hd =>
          refine shows_fill now newest ?_ (stage_settle ..) false allowance
          exact along_settle (following_of_none hfollowing hd) hstream h.failure nofun
            ((discarded_next hfollowing.sound hd).trans h.discarded)
      · next d desync hd => exact shows_of_error hfollowing hd hstream rfl

end Reader

end LogIntake
