import LogIntake.Framing.Decoder
import LogIntake.Proofs.Framing.Newline
import LogIntake.Proofs.Framing.OctetCounting
import LogIntake.Proofs.Framing.Tagged

/-!
# Decoders and the streams they read

A decoder follows a stream: what it has handed out and what is left for it are together what the stream
means, whatever comes behind (`Follows`). Receiving bytes and handing out frames keep this. When the stream
has ended, `Ends` takes its place, since no more bytes come behind.
-/

namespace LogIntake

def Framing.meaning (framing : Framing) (limit : Nat) (s : Bytes) : Parse :=
  match framing with
  | .tagged => Tagged.parse limit 0 s
  | .newline => Newline.parse limit 0 s
  | .octetCounting => OctetCounting.parse limit 0 s

theorem Framing.known_meaning (framing : Framing) (limit : Nat) (s more : Bytes) :
    (framing.meaning limit (s ++ more)).known s.length = (framing.meaning limit s).placed := by
  cases framing with
  | tagged =>
      have hknown := Tagged.known_parse limit 0 s more
      rwa [Nat.zero_add] at hknown
  | newline =>
      have hknown := Newline.known_parse limit 0 s more
      rwa [Nat.zero_add] at hknown
  | octetCounting =>
      have hknown := OctetCounting.known_parse limit 0 s more
      rwa [Nat.zero_add] at hknown

namespace Decoder

/-! ## The meaning of a decoder -/

def Sound : Decoder → Prop
  | .tagged f => Tagged.Sound f
  | .newline f => Newline.Sound f
  | .octetCounting _ => True

def future (d : Decoder) (more : Bytes) (start : Nat) : Parse :=
  match d with
  | .tagged f => Tagged.future f more start
  | .newline f => Newline.future f more start
  | .octetCounting f => OctetCounting.future f more start

def limit : Decoder → Nat
  | .tagged f => f.limit
  | .newline f => f.limit
  | .octetCounting f => f.limit

theorem sound_start (framing : Framing) (limit : Nat) : (start framing limit).Sound := by
  cases framing with
  | tagged => trivial
  | newline => exact ⟨Nat.le_refl _, rfl⟩
  | octetCounting => trivial

theorem future_start (framing : Framing) (limit : Nat) (more : Bytes) :
    (start framing limit).future more 0 = framing.meaning limit more := by
  cases framing <;> rfl

theorem sound_feed {d : Decoder} (h : d.Sound) (bytes : Bytes) : (d.feed bytes).Sound := by
  cases d with
  | tagged f =>
      simp only [feed, Sound, Tagged.Sound, Framer.feed] at h ⊢
      cases hs : f.state with
      | seeking junk => trivial
      | inRecord scanned =>
          simp only [hs] at h ⊢
          rw [List.length_append, List.take_append_of_le_length h.1]
          exact ⟨by omega, h.2⟩
      | discarding skipped => simpa only [hs] using h
  | newline f =>
      simp only [feed, Sound, Newline.Sound, Framer.feed] at h ⊢
      cases hs : f.state with
      | scanning checked =>
          simp only [hs] at h ⊢
          rw [List.length_append, List.take_append_of_le_length h.1]
          exact ⟨by omega, h.2⟩
      | discarding skipped after => simpa only [hs] using h
  | octetCounting f => trivial

theorem future_feed (d : Decoder) (bytes more : Bytes) (start : Nat) :
    (d.feed bytes).future more start = d.future (bytes ++ more) start := by
  cases d with
  | tagged f =>
      simp only [feed, future, Tagged.future, Framer.feed, List.append_assoc]
  | newline f =>
      simp only [feed, future, Newline.future, Framer.feed, List.append_assoc]
  | octetCounting f =>
      simp only [feed, future, OctetCounting.future, Framer.feed, List.append_assoc]

/-- A call takes a decoder along in the stream. -/
structure Handover (d e : Decoder) (handed : Except Desync (Option Frame)) : Prop where
  discarded : e.discarded = d.discarded
  sound : e.Sound
  yields : ∀ more start, (d.future more start).Yields (handedFrames handed) (e.future more)
  quiet : handed = .ok none → ∀ start, ∃ last tail, e.future [] start = .rest last tail
  lost : ∀ desync, handed = .error desync → ∀ more start, e.future more start = .lost

theorem handover_next {d : Decoder} (h : d.Sound) : Handover d d.next.1 d.next.2 := by
  cases d with
  | tagged f =>
      have hnext := Tagged.handover_next h
      exact ⟨hnext.discarded, hnext.sound, hnext.yields, fun hq start => ⟨_, _, hnext.quiet hq start⟩, hnext.lost⟩
  | newline f =>
      have hnext := Newline.handover_next h
      exact ⟨hnext.discarded, hnext.sound, hnext.yields, fun hq start => ⟨_, _, hnext.quiet hq start⟩, hnext.lost⟩
  | octetCounting f =>
      have hnext := OctetCounting.handover_next f
      exact ⟨hnext.discarded, trivial, hnext.yields, fun hq start => ⟨_, _, hnext.quiet hq start⟩, hnext.lost⟩

/-- At the end of the stream a call hands out a frame that is left, or discards what there is. -/
structure Closure (d e : Decoder) (handed : Except Desync (Option Frame)) : Prop where
  sound : e.Sound
  frame : ∀ frame, handed = .ok (some frame) → e.discarded = d.discarded ∧
    ∀ start, ∃ now, (d.future [] start).whole = frame :: (e.future [] now).whole ∧
      (d.future [] start).ending.tail? = (e.future [] now).ending.tail?
  nothing : handed = .ok none → ∀ start, ∃ tail, e.discarded = d.discarded + tail ∧
    (d.future [] start).whole = [] ∧ (d.future [] start).ending.tail? = some tail
  lost : ∀ desync, handed = .error desync → e.discarded = d.discarded ∧
    ∀ start, (d.future [] start).whole = [] ∧ (d.future [] start).ending.tail? = none ∧ e.future [] start = .lost

theorem closure_finish {d : Decoder} (h : d.Sound) : Closure d d.finish.1 d.finish.2 := by
  cases d with
  | tagged f =>
      have hfinish := Tagged.closure_finish h
      exact ⟨hfinish.sound, hfinish.frame, fun hn => (hfinish.nothing hn).2.2, hfinish.lost⟩
  | newline f =>
      have hfinish := Newline.closure_finish h
      exact ⟨hfinish.sound, hfinish.frame, fun hn => (hfinish.nothing hn).2.2, hfinish.lost⟩
  | octetCounting f =>
      have hfinish := OctetCounting.closure_finish f
      exact ⟨trivial, hfinish.frame, fun hn => (hfinish.nothing hn).2.2, hfinish.lost⟩

/-! ## Following a stream -/

/-- A decoder has handed out `given`, and what is left for it is the rest of what the stream means. -/
structure Follows (d : Decoder) (framing : Framing) (limit : Nat) (received : Bytes) (given : List Frame) : Prop where
  sound : d.Sound
  yields : ∀ more, (framing.meaning limit (received ++ more)).Yields given (d.future more)

/-- The decoder asks for more bytes. -/
def Quiet (d : Decoder) : Prop :=
  ∀ start, ∃ last tail, d.future [] start = .rest last tail

/-- The decoder has lost the synchronisation for good. -/
def Lost (d : Decoder) : Prop :=
  ∀ more start, d.future more start = .lost

section

variable {d : Decoder} {framing : Framing} {limit : Nat} {received : Bytes} {given : List Frame}

theorem follows_start (framing : Framing) (limit : Nat) : (start framing limit).Follows framing limit [] [] := by
  refine ⟨sound_start framing limit, fun more => ⟨0, ?_⟩⟩
  rw [future_start]
  exact ⟨rfl, rfl⟩

theorem quiet_start (framing : Framing) (limit : Nat) : (start framing limit).Quiet := by
  intro now
  cases framing with
  | tagged => exact ⟨none, 0, by rw [start, future, Tagged.future]; exact Tagged.parse_nil limit now⟩
  | newline => exact ⟨none, 0, Newline.parse_of_findIdx?_none rfl limit now⟩
  | octetCounting => exact ⟨none, 0, OctetCounting.parse_nil limit now⟩

theorem Follows.feed (h : d.Follows framing limit received given) (bytes : Bytes) :
    (d.feed bytes).Follows framing limit (received ++ bytes) given := by
  refine ⟨sound_feed h.sound bytes, fun more => ?_⟩
  have hyields := h.yields (bytes ++ more)
  rw [← List.append_assoc] at hyields
  simpa only [Parse.Yields, future_feed] using hyields

theorem Follows.next (h : d.Follows framing limit received given) :
    d.next.1.Follows framing limit received (given ++ handedFrames d.next.2) :=
  have hnext := handover_next h.sound
  ⟨hnext.sound, fun more => (h.yields more).trans (hnext.yields more)⟩

theorem Follows.meaning_of_quiet (h : d.Follows framing limit received given) (hq : d.Quiet) :
    ∃ last tail, (framing.meaning limit received).frames = given ∧
      (framing.meaning limit received).ending = .closed last tail := by
  obtain ⟨start, hframes, hending⟩ := h.yields []
  obtain ⟨last, tail, hrest⟩ := hq start
  rw [List.append_nil, hrest] at hframes hending
  exact ⟨last, tail, hframes.trans (List.append_nil given), hending⟩

theorem Follows.meaning_of_lost (h : d.Follows framing limit received given) (hl : d.Lost) (more : Bytes) :
    (framing.meaning limit (received ++ more)).frames = given ∧
      (framing.meaning limit (received ++ more)).ending = .desync := by
  obtain ⟨start, hframes, hending⟩ := h.yields more
  rw [hl more start] at hframes hending
  exact ⟨hframes.trans (List.append_nil given), hending⟩

theorem Lost.next (hs : d.Sound) (hl : d.Lost) : ∃ desync, d.next.2 = .error desync := by
  have hnext := handover_next hs
  obtain ⟨start, hframes, hending⟩ := hnext.yields [] 0
  rw [hl [] 0] at hframes hending
  cases hanswer : d.next.2 with
  | error desync => exact ⟨desync, rfl⟩
  | ok frame =>
      cases frame with
      | none =>
          obtain ⟨last, tail, hrest⟩ := hnext.quiet hanswer start
          rw [hrest] at hending
          cases hending
      | some frame =>
          rw [hanswer] at hframes
          cases hframes

/-! ## At the end of a stream -/

/-- A decoder has handed out `given`, and when no more bytes come the rest of what they mean is left. -/
structure Ends (d : Decoder) (p : Parse) (given : List Frame) : Prop where
  sound : d.Sound
  rest : ∃ start, p.whole = given ++ (d.future [] start).whole ∧ p.ending.tail? = (d.future [] start).ending.tail?

variable {p : Parse}

theorem Follows.ends (h : d.Follows framing limit received given) : d.Ends (framing.meaning limit received) given := by
  obtain ⟨start, hwhole, hending⟩ := (h.yields []).whole_eq
  rw [List.append_nil] at hwhole hending
  exact ⟨h.sound, start, hwhole, by rw [hending]⟩

theorem Ends.of_frame (h : d.Ends p given) (frame : Frame) (hf : d.finish.2 = .ok (some frame)) :
    d.finish.1.discarded = d.discarded ∧ d.finish.1.Ends p (given ++ [frame]) := by
  obtain ⟨start, hwhole, htail⟩ := h.rest
  have hfinish := closure_finish h.sound
  obtain ⟨hdiscarded, hrest⟩ := hfinish.frame frame hf
  obtain ⟨now, hnow, htail'⟩ := hrest start
  refine ⟨hdiscarded, hfinish.sound, now, ?_, htail.trans htail'⟩
  rw [hwhole, hnow, List.append_assoc]
  rfl

theorem Ends.of_nothing (h : d.Ends p given) (hf : d.finish.2 = .ok none) :
    ∃ tail, d.finish.1.discarded = d.discarded + tail ∧ p.whole = given ∧ p.ending.tail? = some tail := by
  obtain ⟨start, hwhole, htail⟩ := h.rest
  obtain ⟨tail, hdiscarded, hnil, hsome⟩ := (closure_finish h.sound).nothing hf start
  rw [hnil, List.append_nil] at hwhole
  exact ⟨tail, hdiscarded, hwhole, htail.trans hsome⟩

theorem Ends.of_lost (h : d.Ends p given) (desync : Desync) (hf : d.finish.2 = .error desync) :
    d.finish.1.discarded = d.discarded ∧ p.whole = given ∧ p.ending.tail? = none := by
  obtain ⟨start, hwhole, htail⟩ := h.rest
  obtain ⟨hdiscarded, hlost⟩ := (closure_finish h.sound).lost desync hf
  rw [(hlost start).1, List.append_nil] at hwhole
  exact ⟨hdiscarded, hwhole, htail.trans (hlost start).2.1⟩

end

end Decoder

end LogIntake
