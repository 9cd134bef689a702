import LogIntake.Framing.Basic
import LogIntake.Proofs.Search

/-!
# What a stream means

Each framing gives a meaning to a stream as a whole: its frames, each with the place at which it is
complete, and how the stream ends. A decoder sees the stream in pieces, and what it still has to hand out
has a meaning, too. `Handover` says how one call of a decoder takes the one to the other.
-/

namespace LogIntake

/-- A frame, and how many bytes of the stream it takes to know it. -/
structure Placed where
  stop : Nat
  frame : Frame
  deriving DecidableEq, Repr

inductive Ending where
  /-- The end may bring a last malformed unit, and so many bytes of an unfinished unit are discarded. -/
  | closed (last : Option Malformed) (tail : Nat)
  /-- The stream has lost its synchronisation. -/
  | desync
  deriving DecidableEq, Repr

def Ending.frames : Ending → List Frame
  | .closed last _ => last.toList.map .malformed
  | .desync => []

def Ending.tail? : Ending → Option Nat
  | .closed _ tail => some tail
  | .desync => none

theorem Ending.eq_desync {e : Ending} (h : e.tail? = none) : e = .desync := by
  cases e with
  | closed last tail => cases h
  | desync => rfl

structure Parse where
  placed : List Placed
  ending : Ending
  deriving DecidableEq, Repr

namespace Parse

/-- A stream that ends before it gives a frame. -/
def rest (last : Option Malformed) (tail : Nat) : Parse :=
  ⟨[], .closed last tail⟩

def lost : Parse :=
  ⟨[], .desync⟩

def prepend (p : Parse) (placed : List Placed) : Parse :=
  { p with placed := placed ++ p.placed }

/-- The frames that are known before the stream ends. -/
def frames (p : Parse) : List Frame :=
  p.placed.map (·.frame)

/-- What is known when so many bytes have come. -/
def known (p : Parse) (n : Nat) : List Placed :=
  p.placed.filter (·.stop ≤ n)

/-- All frames, with those that the end brings. -/
def whole (p : Parse) : List Frame :=
  p.frames ++ p.ending.frames

@[simp] theorem frames_prepend (p : Parse) (placed : List Placed) :
    (p.prepend placed).frames = placed.map (·.frame) ++ p.frames := by
  simp [frames, prepend]

@[simp] theorem ending_prepend (p : Parse) (placed : List Placed) : (p.prepend placed).ending = p.ending := rfl

@[simp] theorem prepend_nil (p : Parse) : p.prepend [] = p := rfl

theorem known_prepend (p : Parse) (placed : List Placed) (n : Nat) :
    (p.prepend placed).known n = placed.filter (·.stop ≤ n) ++ p.known n :=
  List.filter_append ..

theorem known_eq_nil {p : Parse} {n : Nat} (h : ∀ q ∈ p.placed, n < q.stop) : p.known n = [] := by
  rw [known, List.filter_eq_nil_iff]
  intro q hq
  have := h q hq
  simp only [decide_eq_true_eq]
  omega

theorem whole_of_ending {p : Parse} {tail : Nat} (h : p.ending = .closed none tail) : p.whole = p.frames := by
  rw [whole, h]
  exact List.append_nil _

@[simp] theorem frames_rest (last : Option Malformed) (tail : Nat) : (rest last tail).frames = [] := rfl

/-- A stream gives some frames and goes on as another one, wherever that begins. -/
def Yields (p : Parse) (frames : List Frame) (q : Nat → Parse) : Prop :=
  ∃ start, p.frames = frames ++ (q start).frames ∧ p.ending = (q start).ending

theorem Yields.trans {p : Parse} {as bs : List Frame} {q r : Nat → Parse} (hp : p.Yields as q)
    (hq : ∀ start, (q start).Yields bs r) : p.Yields (as ++ bs) r := by
  obtain ⟨i, hframes, hending⟩ := hp
  obtain ⟨j, hframes', hending'⟩ := hq i
  exact ⟨j, by rw [hframes, hframes', List.append_assoc], hending.trans hending'⟩

theorem Yields.whole_eq {p : Parse} {frames : List Frame} {q : Nat → Parse} (h : p.Yields frames q) :
    ∃ start, p.whole = frames ++ (q start).whole ∧ p.ending = (q start).ending := by
  obtain ⟨start, hframes, hending⟩ := h
  exact ⟨start, by rw [whole, whole, hframes, hending, List.append_assoc], hending⟩

end Parse

/-- Where blanks in front are skipped, it is enough to look at what begins with something else. -/
theorem Parse.known_of_front {parse : Nat → Bytes → Parse}
    (hskip : ∀ start s more, parse start (s ++ more) = parse (start + (s.length - (s.dropWhile Bytes.isBlank).length))
      (s.dropWhile Bytes.isBlank ++ more))
    (hnil : ∀ start, parse start [] = .rest none 0)
    (hstop : ∀ start s, ∀ q ∈ (parse start s).placed, start < q.stop)
    (hfront : ∀ start s more, s ≠ [] → s.dropWhile Bytes.isBlank = s →
      (∀ t : Bytes, t.length < s.length → ∀ start,
        (parse start (t ++ more)).known (start + t.length) = (parse start t).placed) →
      (parse start (s ++ more)).known (start + s.length) = (parse start s).placed)
    (start : Nat) (s more : Bytes) :
    (parse start (s ++ more)).known (start + s.length) = (parse start s).placed := by
  induction hn : s.length using Nat.strongRecOn generalizing start s with
  | ind n ih =>
      subst hn
      have hlen : (s.dropWhile Bytes.isBlank).length ≤ s.length := (List.dropWhile_sublist _).length_le
      have hself := hskip start s []
      rw [List.append_nil, List.append_nil] at hself
      rw [hself, hskip start s more]
      rw [show start + s.length = start + (s.length - (s.dropWhile Bytes.isBlank).length)
        + (s.dropWhile Bytes.isBlank).length by omega]
      generalize start + (s.length - (s.dropWhile Bytes.isBlank).length) = start
      have hdropped := Bytes.dropWhile_dropWhile_append Bytes.isBlank s []
      rw [List.append_nil, List.append_nil] at hdropped
      by_cases ht : s.dropWhile Bytes.isBlank = []
      · rw [ht, hnil]
        exact Parse.known_eq_nil (hstop _ _)
      · exact hfront start _ more ht hdropped fun t hlt start => ih t.length (by omega) start t rfl

/-! ## Records among frames -/

def Frame.payload? : Frame → Option Bytes
  | .record payload => some payload
  | .malformed _ => none

def Frame.isRecord (frame : Frame) : Bool :=
  frame.payload?.isSome

def payloads (frames : List Frame) : List Bytes :=
  frames.filterMap Frame.payload?

theorem payloads_append (frames more : List Frame) : payloads (frames ++ more) = payloads frames ++ payloads more :=
  List.filterMap_append ..

theorem Parse.payloads_whole (p : Parse) : payloads p.whole = payloads p.frames := by
  rw [Parse.whole, payloads_append]
  cases p.ending with
  | desync => exact List.append_nil _
  | closed last tail =>
      cases last with
      | none => exact List.append_nil _
      | some unit => exact List.append_nil _

theorem payloads_isPrefix {frames more : List Frame} (h : frames <+: more) : payloads frames <+: payloads more := by
  obtain ⟨rest, rfl⟩ := h
  exact ⟨payloads rest, (payloads_append frames rest).symm⟩

/-- Frames that are all records come before the first that is none. -/
theorem prefix_takeWhile {frames more : List Frame} (h : frames <+: more) (hall : ∀ f ∈ frames, f.isRecord) :
    frames <+: more.takeWhile Frame.isRecord := by
  obtain ⟨rest, rfl⟩ := h
  rw [List.takeWhile_append_of_pos hall]
  exact List.prefix_append ..

theorem Parse.takeWhile_whole (p : Parse) : p.whole.takeWhile Frame.isRecord = p.frames.takeWhile Frame.isRecord := by
  have hnil : p.ending.frames.takeWhile Frame.isRecord = [] := by
    cases p.ending with
    | desync => rfl
    | closed last tail =>
        cases last with
        | none => rfl
        | some unit => rfl
  rw [Parse.whole, List.takeWhile_append, hnil]
  split
  · next hlen => rw [List.append_nil, (List.takeWhile_prefix _).eq_of_length hlen]
  · rfl

/-! ## Calls of a decoder -/

def handedFrames : Except Desync (Option Frame) → List Frame
  | .ok frame => frame.toList
  | .error _ => []

namespace Framer

variable {σ : Type}

/-- What the decoders of a framing mean. -/
structure Meaning (σ : Type) where
  Sound : Framer σ → Prop
  /-- What is left for a decoder, with more bytes behind its buffer. -/
  future : Framer σ → Bytes → Nat → Parse
  /-- What the end of the stream brings to a decoder that has asked for more. -/
  leftover : Framer σ → Option Malformed × Nat
  fresh : σ

namespace Meaning

/-- What a call does that begins with a decoder `f` and ends with `g`. What the bytes meant `before`, with
more behind them, is what the call hands out and then what they mean to `g`. A call that asks for more has
handed out all there is, and after a failure nothing will come any more. -/
structure Handover (m : Meaning σ) (before : Bytes → Nat → Parse) (f g : Framer σ)
    (handed : Except Desync (Option Frame)) : Prop where
  limit : g.limit = f.limit
  discarded : g.discarded = f.discarded
  sound : m.Sound g
  yields : ∀ more start, (before more start).Yields (handedFrames handed) (m.future g more)
  quiet : handed = .ok none → ∀ start, m.future g [] start = .rest (m.leftover g).1 (m.leftover g).2
  lost : ∀ desync, handed = .error desync → ∀ more start, m.future g more start = .lost

/-- What a call does at the end of the stream: it hands out all frames there are, one after the other, and
then discards what is left and is as fresh as at the start. -/
structure Closure (m : Meaning σ) (f g : Framer σ) (handed : Except Desync (Option Frame)) : Prop where
  limit : g.limit = f.limit
  sound : m.Sound g
  frame : ∀ frame, handed = .ok (some frame) → g.discarded = f.discarded ∧
    ∀ start, ∃ now, (m.future f [] start).whole = frame :: (m.future g [] now).whole ∧
      (m.future f [] start).ending.tail? = (m.future g [] now).ending.tail?
  nothing : handed = .ok none → g.buffer = [] ∧ g.state = m.fresh ∧
    ∀ start, ∃ tail, g.discarded = f.discarded + tail ∧ (m.future f [] start).whole = [] ∧
      (m.future f [] start).ending.tail? = some tail
  lost : ∀ desync, handed = .error desync → g.discarded = f.discarded ∧
    ∀ start, (m.future f [] start).whole = [] ∧ (m.future f [] start).ending.tail? = none ∧
      m.future g [] start = .lost

variable {m : Meaning σ} {before : Bytes → Nat → Parse} {f g : Framer σ}

theorem Handover.of_frame {frame : Frame} (hlimit : g.limit = f.limit) (hdiscarded : g.discarded = f.discarded)
    (hsound : m.Sound g) (h : ∀ more start, (before more start).Yields [frame] (m.future g more)) :
    m.Handover before f g (.ok (some frame)) := by
  refine ⟨hlimit, hdiscarded, hsound, h, fun hq => ?_, fun _ hl => ?_⟩
  · cases hq
  · cases hl

theorem Handover.of_quiet (hlimit : g.limit = f.limit) (hdiscarded : g.discarded = f.discarded)
    (hsound : m.Sound g) (h : ∀ more start, (before more start).Yields [] (m.future g more))
    (hquiet : ∀ start, m.future g [] start = .rest (m.leftover g).1 (m.leftover g).2) :
    m.Handover before f g (.ok none) := by
  refine ⟨hlimit, hdiscarded, hsound, h, fun _ => hquiet, fun _ hl => ?_⟩
  cases hl

/-- A call may first pass over bytes that mean nothing. -/
theorem Handover.of_yields {before' : Bytes → Nat → Parse} {f' : Framer σ} {handed : Except Desync (Option Frame)}
    (h : m.Handover before f g handed) (hlimit : f.limit = f'.limit) (hdiscarded : f.discarded = f'.discarded)
    (hbefore : ∀ more start, (before' more start).Yields [] (before more)) : m.Handover before' f' g handed :=
  ⟨h.limit.trans hlimit, h.discarded.trans hdiscarded, h.sound,
    fun more start => (hbefore more start).trans (h.yields more), h.quiet, h.lost⟩

/-- A call that hands something out, or fails, does the same at the end of the stream. -/
theorem Handover.closure {handed : Except Desync (Option Frame)} (h : m.Handover (m.future f) f g handed)
    (hne : handed ≠ .ok none) : m.Closure f g handed := by
  refine ⟨h.limit, h.sound, fun frame hframe => ⟨h.discarded, fun start => ?_⟩, fun hnone => absurd hnone hne,
    fun desync hlost => ⟨h.discarded, fun start => ?_⟩⟩
  · subst hframe
    obtain ⟨now, hwhole, hending⟩ := (h.yields [] start).whole_eq
    exact ⟨now, hwhole, by rw [hending]⟩
  · obtain ⟨now, hwhole, hending⟩ := (h.yields [] start).whole_eq
    rw [h.lost desync hlost [] now] at hwhole hending
    subst hlost
    exact ⟨hwhole, by rw [hending]; rfl, h.lost desync rfl [] start⟩

/-- A decoder that has no frame to give at the end of the stream discards what is left. -/
theorem Handover.closure_discard {last : Framer σ} {tail : Nat} (h : m.Handover (m.future f) f g (.ok none))
    (hlimit : last.limit = g.limit) (hbuffer : last.buffer = []) (hstate : last.state = m.fresh)
    (hsound : m.Sound last) (hleft : m.leftover g = (none, tail))
    (hdiscarded : last.discarded = g.discarded + tail) : m.Closure f last (.ok none) := by
  refine ⟨hlimit.trans h.limit, hsound, fun _ hframe => ?_, fun _ => ⟨hbuffer, hstate, fun start => ?_⟩,
    fun _ hlost => ?_⟩
  · cases hframe
  · obtain ⟨now, hwhole, hending⟩ := (h.yields [] start).whole_eq
    rw [h.quiet rfl now, hleft] at hwhole hending
    exact ⟨tail, by rw [hdiscarded, h.discarded], hwhole, by rw [hending]; rfl⟩
  · cases hlost

end Meaning

end Framer

end LogIntake
