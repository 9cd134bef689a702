import LogIntake.Proofs.Connection.Stream
import LogIntake.Proofs.Framing.Answers

/-!
# What is to come of a connection

How many bytes one read takes depends on the room that there is for them, and so does how far a reader has read
ahead. What is to come of a connection does not: its frames, its pauses and its end (`Prospect`). A reader renders
its prospect, whatever room it has; only the wording of a loss of synchronisation may depend on that.
-/

namespace LogIntake

/-- What is to come of a connection. -/
inductive Prospect where
  | frame (frame : Frame) (rest : Prospect)
  | pause (span : Duration) (rest : Prospect)
  /-- The stream ends, and so many bytes of an unfinished unit are discarded. -/
  | ended (tail : Nat)
  | failed (cause : IoError)
  | desync
  | silence
  deriving DecidableEq, Repr

namespace Prospect

def behind (frames : List Frame) (p : Prospect) : Prospect :=
  frames.foldr .frame p

/-- What comes next of a prospect, and what is to come then. -/
inductive Heard where
  | frame (frame : Frame) (rest : Prospect)
  | ended (tail : Nat)
  | failed (cause : IoError)
  | desync
  | blocked (rest : Prospect) (pausedUntil : Option Instant)
  | spent (rest : Prospect) (pausedUntil : Option Instant)
  deriving DecidableEq, Repr

/-- What comes at a point of time, where a pause in front may already have begun. -/
def hear (now : Instant) (pausedUntil : Option Instant) (allowance : Nat) : Prospect → Heard
  | .frame f rest => .frame f rest
  | .pause span rest =>
    let stop := pausedUntil.getD (now.plus span)
    if allowance = 0 then .spent (.pause span rest) (some stop)
    else if stop.nanos ≤ now.nanos then rest.hear now none (allowance - 1)
    else .blocked (.pause span rest) (some stop)
  | .ended tail => .ended tail
  | .failed cause => .failed cause
  | .desync => .desync
  | .silence => .blocked .silence none

end Prospect

theorem Decoder.Follows.ending_of_quiet {d : Decoder} {framing : Framing} {limit : Nat} {received : Bytes}
    {given : List Frame} (h : d.Follows framing limit received given) (hquiet : d.Quiet) :
    (framing.meaning limit received).ending ≠ .desync := by
  obtain ⟨last, tail, -, hending⟩ := h.meaning_of_quiet hquiet
  rw [hending]
  exact Ending.noConfusion

namespace Framing

/-- What is to come when so much has been received and its frames have been handed out. -/
def prospect (framing : Framing) (limit : Nat) (received : Bytes) : List Source.Step → Prospect
  | [] =>
    match (framing.meaning limit received).ending with
    | .closed last tail => .behind (last.toList.map .malformed) (.ended tail)
    | .desync => .desync
  | .data bytes :: rest =>
    let p := framing.meaning limit (received ++ bytes)
    .behind (p.frames.drop (framing.meaning limit received).frames.length)
      (if p.ending = .desync then .desync else framing.prospect limit (received ++ bytes) rest)
  | .pause span :: rest => .pause span (framing.prospect limit received rest)
  | .failure cause :: _ => .failed cause
  | .signal :: rest => framing.prospect limit received rest
  | .silence :: _ => .silence

/-- What is to come when these frames of what has been received have been handed out. -/
def ahead (framing : Framing) (limit : Nat) (received : Bytes) (given : List Frame) (steps : List Source.Step) :
    Prospect :=
  let p := framing.meaning limit received
  .behind (p.frames.drop given.length) (if p.ending = .desync then .desync else framing.prospect limit received steps)

variable {framing : Framing} {limit : Nat} {received : Bytes} {given : List Frame} {steps : List Source.Step}

/-- Frames that are known stay known, and a stream that has lost its synchronisation has no others. -/
theorem meaning_append (framing : Framing) (limit : Nat) (s more : Bytes) :
    ∃ frames, (framing.meaning limit (s ++ more)).frames = (framing.meaning limit s).frames ++ frames ∧
      ((framing.meaning limit s).ending = .desync →
        frames = [] ∧ (framing.meaning limit (s ++ more)).ending = .desync) := by
  obtain ⟨given, failures, hdrained, -, hquiet⟩ := Decoder.answered_drained framing limit [.feed s]
  simp only [Decoder.received, List.append_nil] at hdrained
  by_cases hnone : failures = []
  · obtain ⟨last, tail, hframes, hending⟩ := hdrained.follows.meaning_of_quiet (hquiet hnone)
    obtain ⟨start, hmore, -⟩ := hdrained.follows.yields more
    exact ⟨_, by rw [hmore, hframes], fun hlost => Ending.noConfusion (hending.symm.trans hlost)⟩
  · have hlost := hdrained.follows.meaning_of_lost (hdrained.lost hnone)
    have hnow := (hlost []).1
    rw [List.append_nil] at hnow
    exact ⟨[], by rw [(hlost more).1, hnow, List.append_nil], fun _ => ⟨rfl, (hlost more).2⟩⟩

theorem prospect_data (framing : Framing) (limit : Nat) (received bytes : Bytes) (rest : List Source.Step) :
    framing.prospect limit received (.data bytes :: rest)
      = framing.ahead limit (received ++ bytes) (framing.meaning limit received).frames rest := rfl

theorem behind_append (frames more : List Frame) (p : Prospect) :
    Prospect.behind (frames ++ more) p = .behind frames (.behind more p) :=
  List.foldr_append

theorem ahead_of_all (hframes : (framing.meaning limit received).frames = given)
    (hending : (framing.meaning limit received).ending ≠ .desync) :
    framing.ahead limit received given steps = framing.prospect limit received steps := by
  rw [ahead, hframes, List.drop_length, if_neg hending]
  rfl

theorem prospect_data_nil (hending : (framing.meaning limit received).ending ≠ .desync) (rest : List Source.Step) :
    framing.prospect limit received (.data [] :: rest) = framing.prospect limit received rest := by
  rw [prospect_data, List.append_nil]
  exact ahead_of_all rfl hending

theorem prospect_data_append (framing : Framing) (limit : Nat) (received bytes more : Bytes)
    (rest : List Source.Step) :
    framing.prospect limit received (.data (bytes ++ more) :: rest)
      = framing.prospect limit received (.data bytes :: .data more :: rest) := by
  obtain ⟨early, hearly, -⟩ := framing.meaning_append limit received bytes
  obtain ⟨late, hlate, hlost⟩ := framing.meaning_append limit (received ++ bytes) more
  have hall : (framing.meaning limit (received ++ bytes ++ more)).frames
      = (framing.meaning limit received).frames ++ (early ++ late) := by
    rw [hlate, hearly, List.append_assoc]
  rw [prospect_data, prospect_data, ← List.append_assoc]
  unfold ahead
  simp only
  rw [hall, hearly, List.drop_left, List.drop_left, behind_append]
  by_cases hending : (framing.meaning limit (received ++ bytes)).ending = .desync
  · obtain ⟨rfl, hstill⟩ := hlost hending
    rw [if_pos hending, if_pos hstill]
    rfl
  · rw [if_neg hending, prospect_data, ahead, hlate, List.drop_left]

/-! ## What a decoder hands out of it -/

variable {d e : Decoder}

theorem ahead_of_frame (h : d.Follows framing limit received given) {frame : Frame}
    (hd : d.next = (e, .ok (some frame))) (steps : List Source.Step) :
    framing.ahead limit received given steps
      = .frame frame (framing.ahead limit received (given ++ [frame]) steps) := by
  have hnext := h.next
  rw [hd] at hnext
  obtain ⟨start, hframes, -⟩ := hnext.yields []
  rw [List.append_nil] at hframes
  have hbehind : (framing.meaning limit received).frames.drop given.length
      = frame :: (framing.meaning limit received).frames.drop (given ++ [frame]).length := by
    rw [hframes]
    show (given ++ [frame] ++ _).drop _ = frame :: (given ++ [frame] ++ _).drop _
    rw [List.drop_left, List.append_assoc, List.drop_left]
    rfl
  rw [ahead, hbehind]
  rfl

theorem ahead_of_none (h : d.Follows framing limit received given) (hd : d.next = (e, .ok none))
    (steps : List Source.Step) :
    framing.ahead limit received given steps = framing.prospect limit received steps := by
  have hnext := h.next
  have hquiet := (Decoder.handover_next h.sound).quiet
  rw [hd] at hnext hquiet
  obtain ⟨last, tail, hframes, hending⟩ := hnext.meaning_of_quiet (hquiet rfl)
  exact ahead_of_all (hframes.trans (List.append_nil given)) (by rw [hending]; exact Ending.noConfusion)

theorem ahead_of_error (h : d.Follows framing limit received given) {desync : Desync}
    (hd : d.next = (e, .error desync)) (steps : List Source.Step) :
    framing.ahead limit received given steps = .desync := by
  have hnext := h.next
  have hlost := (Decoder.handover_next h.sound).lost desync
  rw [hd] at hnext hlost
  obtain ⟨hframes, hending⟩ := hnext.meaning_of_lost (hlost rfl) []
  rw [List.append_nil] at hframes hending
  rw [ahead, hframes.trans (List.append_nil given), List.drop_length, if_pos hending]
  rfl

end Framing

/-! ## What a read takes of it -/

/-- When the pause in front ends, if it has begun. -/
def Source.due? (s : Source) : Option Instant :=
  match s.steps with
  | .pause _ :: _ => s.pausedUntil
  | _ => none

theorem Source.due?_none (steps : List Source.Step) : Source.due? ⟨steps, none⟩ = none := by
  unfold due?
  split
  · rfl
  · rfl

theorem Source.pausedUntil_of_due? {s : Source} {stop : Instant} (h : s.due? = some stop) :
    s.pausedUntil = some stop := by
  unfold due? at h
  split at h
  · exact h
  · cases h

/-- What a read has found of what is to come. -/
def Source.Read.heard (result : Source.Read) (rest : Source) (framing : Framing) (limit : Nat) (received : Bytes)
    (now : Instant) (allowance : Nat) : Prospect.Heard :=
  match result with
  | .bytes part => (framing.prospect limit received (.data part :: rest.steps)).hear now rest.due? allowance
  | .ended => (framing.prospect limit received []).hear now none allowance
  | .failed cause => .failed cause
  | .blocked => .blocked (framing.prospect limit received rest.steps) rest.due?
  | .spent => .spent (framing.prospect limit received rest.steps) rest.due?

theorem Source.heard_readSteps {framing : Framing} {limit : Nat} {received : Bytes}
    (hending : (framing.meaning limit received).ending ≠ .desync) (now : Instant) (room : Nat)
    (pausedUntil : Option Instant) (signalled : Bool) (allowance : Nat) (steps : List Source.Step) :
    let reading := readSteps now room pausedUntil signalled allowance steps
    (framing.prospect limit received steps).hear now (due? ⟨steps, pausedUntil⟩) allowance
      = reading.result.heard reading.rest framing limit received now reading.allowance := by
  induction steps generalizing pausedUntil signalled allowance with
  | nil => rfl
  | cons step rest ih =>
      have hnext := fun signalled allowance => ih none signalled allowance
      simp only [due?_none] at hnext
      cases step with
      | data bytes =>
          unfold readSteps
          split
          · next hnil =>
              rw [hnil, Framing.prospect_data_nil hending]
              exact hnext signalled allowance
          · split
            · simp only [Read.heard, due?_none]
              rfl
            · simp only [Read.heard, due?_none, ← Framing.prospect_data_append, List.take_append_drop]
              rfl
      | pause span =>
          rw [show due? ⟨.pause span :: rest, pausedUntil⟩ = pausedUntil from rfl]
          unfold readSteps Framing.prospect Prospect.hear
          simp only
          split
          · rfl
          · split
            · exact hnext signalled (allowance - 1)
            · rfl
      | failure cause => rfl
      | signal => exact hnext true allowance
      | silence => rfl

theorem Source.due?_readSteps (now : Instant) (room : Nat) (pausedUntil : Option Instant) (signalled : Bool)
    (allowance : Nat) (steps : List Source.Step) :
    let reading := readSteps now room pausedUntil signalled allowance steps
    reading.result ≠ .blocked → reading.result ≠ .spent → reading.rest.due? = none := by
  induction steps generalizing pausedUntil signalled allowance with
  | nil => exact fun _ _ => rfl
  | cons step rest ih =>
      cases step with
      | data bytes =>
          unfold readSteps
          split
          · exact ih none signalled allowance
          · split
            · exact fun _ _ => due?_none rest
            · exact fun _ _ => due?_none _
      | pause span =>
          unfold readSteps
          simp only
          split
          · exact fun _ hspent => absurd rfl hspent
          · split
            · exact ih none signalled (allowance - 1)
            · exact fun hblocked _ => absurd rfl hblocked
      | failure cause => exact fun _ _ => due?_none rest
      | signal => exact ih none true allowance
      | silence => exact fun hblocked _ => absurd rfl hblocked

theorem Source.due?_of_read {s : Source} {now : Instant} {room allowance : Nat} {result : Read}
    (h : (s.read now room allowance).result = result) (hblocked : result ≠ .blocked) (hspent : result ≠ .spent) :
    (s.read now room allowance).rest.due? = none := by
  subst h
  exact due?_readSteps now (max 1 room) s.pausedUntil false allowance s.steps hblocked hspent

theorem Source.heard_of_read {s : Source} {framing : Framing} {limit : Nat} {received : Bytes}
    (hending : (framing.meaning limit received).ending ≠ .desync) {now : Instant} {room allowance : Nat}
    {result : Read} (h : (s.read now room allowance).result = result) :
    (framing.prospect limit received s.steps).hear now s.due? allowance
      = result.heard (s.read now room allowance).rest framing limit received now
          (s.read now room allowance).allowance := by
  subst h
  exact heard_readSteps hending now (max 1 room) s.pausedUntil false allowance s.steps

namespace Reader

/-! ## What a reader renders of it -/

/-- So much is to come from a reader, of which nothing has been discarded yet. A pause in front can have begun only
while the reader waits for bytes. -/
structure Plays (r : Reader) (framing : Framing) (limit : Nat) (p : Prospect) : Prop where
  discarded : r.decoder.discarded = 0
  due : r.stage ≠ .filling → r.source.due? = none
  stands : ∃ received given,
    match r.stage with
    | .filling => r.decoder.Follows framing limit received given ∧ r.decoder.Quiet ∧
        p = framing.prospect limit received r.source.steps
    | .framing => r.decoder.Follows framing limit received given ∧
        p = framing.ahead limit received given r.source.steps
    | .ending => ∃ last tail, r.decoder.Ends (framing.meaning limit received) given ∧
        (framing.meaning limit received).ending = .closed last tail ∧
        p = .behind ((framing.meaning limit received).whole.drop given.length) (.ended tail)

/-- An arrival is what is heard of a prospect. Which words a loss of synchronisation is reported with is left open. -/
def Result.Renders (result : Result) (framing : Framing) (limit : Nat) (heard : Prospect.Heard) : Prop :=
  match heard with
  | .frame f rest => result.arrival = .frame f ∧ result.reader.Plays framing limit rest ∧
      result.reader.source.due? = none
  | .ended tail => result.arrival = .ended ∧ result.reader.decoder.discarded = tail
  | .failed cause => result.arrival = .failed (.io cause) ∧ result.reader.decoder.discarded = 0
  | .desync => (∃ reason, result.arrival = .failed (.desync reason)) ∧ result.reader.decoder.discarded = 0
  | .blocked rest pausedUntil => result.arrival = .blocked ∧ result.reader.Plays framing limit rest ∧
      result.reader.source.due? = pausedUntil
  | .spent rest pausedUntil => result.arrival = .spent ∧ result.reader.Plays framing limit rest ∧
      result.reader.source.due? = pausedUntil

variable {r : Reader} {framing : Framing} {limit : Nat} {received : Bytes} {given : List Frame} {p : Prospect}
  {d : Decoder}

theorem plays_of_filling (h : r.decoder.Follows framing limit received given) (hquiet : r.decoder.Quiet)
    (hdiscarded : r.decoder.discarded = 0) (hstage : r.stage = .filling) :
    r.Plays framing limit (framing.prospect limit received r.source.steps) := by
  refine ⟨hdiscarded, fun hne => absurd hstage hne, received, given, ?_⟩
  simp only [hstage]
  exact ⟨h, hquiet, trivial⟩

theorem plays_start (steps : List Source.Step) (storage : Storage) (framing : Framing) (limit : Nat) :
    Plays { source := { steps }, decoder := .start framing limit, storage } framing limit
      (framing.prospect limit [] steps) := by
  refine plays_of_filling (Decoder.follows_start framing limit) (Decoder.quiet_start framing limit) ?_ rfl
  cases framing <;> rfl

theorem renders_of_frame (h : r.decoder.Follows framing limit received given) {frame : Frame}
    (hd : r.decoder.next = (d, .ok (some frame))) (hdiscarded : r.decoder.discarded = 0)
    (hdue : r.source.due? = none) (signalled : Bool) (allowance : Nat) :
    Result.Renders ⟨r.settle d .framing (.ok (some frame)), .frame frame, signalled, allowance⟩ framing limit
      (.frame frame (framing.ahead limit received (given ++ [frame]) r.source.steps)) := by
  have hfollowing := following_of_frame h hd
  simp only [Following, stage_settle] at hfollowing
  refine ⟨rfl, ⟨?_, fun _ => by rw [source_settle]; exact hdue, received, given ++ [frame], ?_⟩,
    by rw [source_settle]; exact hdue⟩
  · rw [decoder_settle, discarded_next h.sound hd]
    exact hdiscarded
  · simp only [stage_settle, source_settle]
    exact ⟨hfollowing, trivial⟩

theorem renders_of_error (h : r.decoder.Follows framing limit received given) {desync : Desync}
    (hd : r.decoder.next = (d, .error desync)) (hdiscarded : r.decoder.discarded = 0) (signalled : Bool)
    (allowance : Nat) :
    Result.Renders ⟨r.settle d .filling (.error desync), .failed (.desync desync.reason), signalled, allowance⟩
      framing limit .desync := by
  refine ⟨⟨_, rfl⟩, ?_⟩
  rw [decoder_settle, discarded_next h.sound hd]
  exact hdiscarded

theorem renders_finish {last : Option Malformed} {tail : Nat}
    (h : r.decoder.Ends (framing.meaning limit received) given)
    (hending : (framing.meaning limit received).ending = .closed last tail) (hdiscarded : r.decoder.discarded = 0)
    (hdue : r.source.due? = none) (signalled : Bool) (allowance : Nat) (now : Instant)
    (pausedUntil : Option Instant) (left : Nat) :
    (r.finish signalled allowance).Renders framing limit
      ((Prospect.behind ((framing.meaning limit received).whole.drop given.length) (.ended tail)).hear now pausedUntil
        left) := by
  unfold finish
  split
  · next d frame hd =>
      have hframe := h.of_frame frame
      rw [hd] at hframe
      obtain ⟨hsame, hends⟩ := hframe rfl
      obtain ⟨start, hwhole, -⟩ := hends.rest
      have hbehind : (framing.meaning limit received).whole.drop given.length
          = frame :: (framing.meaning limit received).whole.drop (given ++ [frame]).length := by
        rw [hwhole, List.drop_left, List.append_assoc, List.drop_left]
        rfl
      rw [hbehind]
      refine ⟨rfl, ⟨?_, fun _ => by rw [source_settle]; exact hdue, received, given ++ [frame], ?_⟩,
        by rw [source_settle]; exact hdue⟩
      · rw [decoder_settle]
        exact hsame.trans hdiscarded
      · simp only [stage_settle, decoder_settle]
        exact ⟨last, tail, hends, hending, rfl⟩
  · next d hd =>
      have hnothing := h.of_nothing
      rw [hd] at hnothing
      obtain ⟨tail', hsame, hwhole, htail⟩ := hnothing rfl
      rw [hending] at htail
      rw [hwhole, List.drop_length]
      refine ⟨rfl, ?_⟩
      rw [decoder_settle, hsame, hdiscarded, Nat.zero_add]
      exact (Option.some.inj htail).symm
  · next d desync hd =>
      have hlost := h.of_lost desync
      rw [hd] at hlost
      obtain ⟨-, -, htail⟩ := hlost rfl
      rw [hending] at htail
      cases htail

theorem heard_bytes (h : r.decoder.Follows framing limit received given) (hquiet : r.decoder.Quiet) {now : Instant}
    {room allowance : Nat} {part : Bytes} (hread : (r.source.read now room allowance).result = .bytes part) :
    (framing.prospect limit received r.source.steps).hear now r.source.due? allowance
      = (framing.ahead limit (received ++ part) given (r.source.read now room allowance).rest.steps).hear now
          (r.source.read now room allowance).rest.due? (r.source.read now room allowance).allowance := by
  obtain ⟨-, -, hframes, -⟩ := h.meaning_of_quiet hquiet
  rw [Source.heard_of_read (h.ending_of_quiet hquiet) hread, Source.Read.heard, Framing.prospect_data, hframes]

/-- A reader that has handed out all that it has received renders what is to come from its source. -/
theorem renders_fill (now : Instant) (newest : Option Nat) (h : r.decoder.Follows framing limit received given)
    (hquiet : r.decoder.Quiet) (hdiscarded : r.decoder.discarded = 0) (hstage : r.stage = .filling) (signalled : Bool)
    (allowance : Nat) :
    (fill now newest r signalled allowance).Renders framing limit
      ((framing.prospect limit received r.source.steps).hear now r.source.due? allowance) := by
  -- A part that does not complete a unit is followed by another read, of which more has been received.
  fun_induction fill now newest r signalled allowance generalizing received with
  | case1 r signalled allowance ready reading _ _ part hpart fed d frame =>
      have hd : fed.decoder.next = (d, .ok (some frame)) := ‹_›
      have hfed := h.feed part
      rw [heard_bytes h hquiet hpart, Framing.ahead_of_frame hfed hd]
      exact renders_of_frame (r := fed) hfed hd ((Decoder.discarded_feed _ part).trans hdiscarded)
        (Source.due?_of_read hpart Source.Read.noConfusion Source.Read.noConfusion) _ _
  | case2 r signalled allowance ready reading _ _ part hpart fed d hd =>
      rename_i ih
      have hfed := h.feed part
      obtain ⟨hfollows, hasks⟩ := following_of_none (r := fed) hfed hd
      have hkept : (fed.settle d .filling (.ok none)).decoder.discarded = 0 := by
        rw [decoder_settle, discarded_next hfed.sound hd, Decoder.discarded_feed]
        exact hdiscarded
      have hrest := ih hfollows hasks hkept (stage_settle ..)
      rw [source_settle] at hrest
      rw [heard_bytes h hquiet hpart, Framing.ahead_of_none hfed hd]
      exact hrest
  | case3 r signalled allowance ready reading _ _ part hpart fed d desync =>
      have hd : fed.decoder.next = (d, .error desync) := ‹_›
      have hfed := h.feed part
      rw [heard_bytes h hquiet hpart, Framing.ahead_of_error hfed hd]
      exact renders_of_error (r := fed) hfed hd ((Decoder.discarded_feed _ part).trans hdiscarded) _ _
  | case4 r signalled allowance ready reading _ rest =>
      have hended : reading.result = .ended := ‹_›
      obtain ⟨last, tail, hframes, hending⟩ := h.meaning_of_quiet hquiet
      have hdue := Source.due?_of_read hended Source.Read.noConfusion Source.Read.noConfusion
      have hfinish := fun signalled => renders_finish (r := rest) h.ends hending hdiscarded hdue signalled
        reading.allowance now none reading.allowance
      rw [Parse.whole, ← hframes, List.drop_left, hending] at hfinish
      rw [Source.heard_of_read (h.ending_of_quiet hquiet) hended, Source.Read.heard, Framing.prospect, hending]
      exact hfinish _
  | case5 r signalled allowance ready reading _ _ cause =>
      have hfailed : reading.result = .failed cause := ‹_›
      rw [Source.heard_of_read (h.ending_of_quiet hquiet) hfailed]
      exact ⟨rfl, hdiscarded⟩
  | case6 r signalled allowance ready reading =>
      have hblocked : reading.result = .blocked := ‹_›
      rw [Source.heard_of_read (h.ending_of_quiet hquiet) hblocked]
      exact ⟨rfl, plays_of_filling h hquiet hdiscarded hstage, rfl⟩
  | case7 r signalled allowance ready reading =>
      have hspent : reading.result = .spent := ‹_›
      rw [Source.heard_of_read (h.ending_of_quiet hquiet) hspent]
      exact ⟨rfl, plays_of_filling h hquiet hdiscarded hstage, rfl⟩

/-- The next arrival is what comes next of the prospect, whatever room there is for it. -/
theorem Plays.next (h : r.Plays framing limit p) (now : Instant) (newest : Option Nat) (allowance : Nat) :
    (r.next now newest allowance).Renders framing limit (p.hear now r.source.due? allowance) := by
  obtain ⟨hdiscarded, hdue, received, given, hstands⟩ := h
  unfold Reader.next
  cases hstage : r.stage with
  | filling =>
      simp only [hstage] at hstands
      obtain ⟨hfollows, hquiet, rfl⟩ := hstands
      exact renders_fill now newest hfollows hquiet hdiscarded hstage false allowance
  | ending =>
      simp only [hstage] at hstands
      obtain ⟨last, tail, hends, hending, rfl⟩ := hstands
      exact renders_finish hends hending hdiscarded (hdue (by rw [hstage]; exact Stage.noConfusion)) false allowance
        now _ allowance
  | framing =>
      simp only [hstage] at hstands
      obtain ⟨hfollows, rfl⟩ := hstands
      simp only
      split
      · next d frame hd =>
          rw [Framing.ahead_of_frame hfollows hd]
          have hnone := hdue (by rw [hstage]; exact Stage.noConfusion)
          exact renders_of_frame hfollows hd hdiscarded hnone false allowance
      · next d hd =>
          obtain ⟨hstill, hquiet⟩ := following_of_none hfollows hd
          have hkept : (r.settle d .filling (.ok none)).decoder.discarded = 0 := by
            rw [decoder_settle, discarded_next hfollows.sound hd]
            exact hdiscarded
          have hfill := renders_fill now newest hstill hquiet hkept (stage_settle ..) false allowance
          rw [source_settle] at hfill
          rw [Framing.ahead_of_none hfollows hd]
          exact hfill
      · next d desync hd =>
          rw [Framing.ahead_of_error hfollows hd]
          exact renders_of_error hfollows hd hdiscarded false allowance

end Reader

end LogIntake
