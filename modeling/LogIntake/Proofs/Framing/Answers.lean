import LogIntake.Proofs.Framing.Decoder

/-!
# What a decoder answers

A decoder may be asked for frames at any time while a stream comes in, in pieces of any kind. What it
answers is what the stream means: the frames, in order, each as soon as the bytes have come that make it
known. The invariant of such a run is `Answered`.
-/

namespace LogIntake

namespace Decoder

/-! ## Calls -/

inductive Call where
  | feed (bytes : Bytes)
  | next
  deriving DecidableEq, Repr

def received : List Call → Bytes
  | [] => []
  | .feed bytes :: calls => bytes ++ received calls
  | .next :: calls => received calls

/-- What has been answered: frames, and failures behind them. -/
def answersOf (given : List Frame) (failures : List Desync) : List (Except Desync Frame) :=
  given.map .ok ++ failures.map .error

def handedFailures : Except Desync (Option Frame) → List Desync
  | .ok _ => []
  | .error desync => [desync]

def answers (handed : Except Desync (Option Frame)) : List (Except Desync Frame) :=
  answersOf (handedFrames handed) (handedFailures handed)

def Harvest.answers (h : Harvest) : List (Except Desync Frame) :=
  answersOf h.frames h.desync.toList

def run (d : Decoder) : List Call → Decoder × List (Except Desync Frame)
  | [] => (d, [])
  | .feed bytes :: calls => (d.feed bytes).run calls
  | .next :: calls =>
    let (e, handed) := d.next
    let (last, more) := e.run calls
    (last, answers handed ++ more)

/-- Some calls, and then as many as there are frames. -/
def drained (d : Decoder) (calls : List Call) : Decoder × List (Except Desync Frame) :=
  let (e, given) := d.run calls
  let (last, harvest) := e.drain
  (last, given ++ harvest.answers)

/-- Some calls and the end of the stream. -/
def finished (d : Decoder) (calls : List Call) : Decoder × List (Except Desync Frame) :=
  let (e, given) := d.drained calls
  let (last, harvest) := e.drainEnd
  (last, given ++ harvest.answers)

/-! ## Following a stream through calls -/

/-- A decoder has followed a stream, has given these answers, and fails for good once it has failed. -/
structure Answered (d : Decoder) (framing : Framing) (limit : Nat) (received : Bytes)
    (given : List Frame) (failures : List Desync) : Prop where
  follows : d.Follows framing limit received given
  discarded : d.discarded = 0
  lost : failures ≠ [] → d.Lost

variable {d : Decoder} {framing : Framing} {limit : Nat} {s : Bytes} {given : List Frame} {failures : List Desync}

theorem answersOf_append (more : List Desync) {frames : List Frame} (h : failures = [] ∨ frames = []) :
    answersOf given failures ++ answersOf frames more = answersOf (given ++ frames) (failures ++ more) := by
  rcases h with rfl | rfl
  · simp [answersOf]
  · simp [answersOf]

theorem answered_start (framing : Framing) (limit : Nat) :
    (start framing limit).Answered framing limit [] [] [] := by
  refine ⟨follows_start framing limit, ?_, fun hne => absurd rfl hne⟩
  cases framing <;> rfl

theorem Lost.feed (h : d.Lost) (bytes : Bytes) : (d.feed bytes).Lost := by
  intro more start
  rw [future_feed]
  exact h (bytes ++ more) start

theorem discarded_feed (d : Decoder) (bytes : Bytes) : (d.feed bytes).discarded = d.discarded := by
  cases d <;> rfl

theorem Answered.feed (h : d.Answered framing limit s given failures) (bytes : Bytes) :
    (d.feed bytes).Answered framing limit (s ++ bytes) given failures :=
  ⟨h.follows.feed bytes, (discarded_feed d bytes).trans h.discarded, fun hne => (h.lost hne).feed bytes⟩

theorem Answered.next (h : d.Answered framing limit s given failures) :
    d.next.1.Answered framing limit s (given ++ handedFrames d.next.2) (failures ++ handedFailures d.next.2) ∧
      answersOf (given ++ handedFrames d.next.2) (failures ++ handedFailures d.next.2)
        = answersOf given failures ++ answers d.next.2 := by
  have hnext := handover_next h.follows.sound
  have hfollows := h.follows.next
  have hdiscarded := hnext.discarded.trans h.discarded
  cases hanswer : d.next.2 with
  | error desync =>
      rw [hanswer] at hfollows
      exact ⟨⟨hfollows, hdiscarded, fun _ => hnext.lost desync hanswer⟩, (answersOf_append _ (Or.inr rfl)).symm⟩
  | ok frame =>
      rw [hanswer] at hfollows
      -- A decoder that has failed before fails again.
      have hnone : failures = [] := by
        by_cases hne : failures = []
        · exact hne
        · obtain ⟨desync, hfail⟩ := (h.lost hne).next h.follows.sound
          rw [hanswer] at hfail
          cases hfail
      exact ⟨⟨hfollows, hdiscarded, fun hne => absurd (by simp [hnone, handedFailures]) hne⟩,
        (answersOf_append _ (Or.inl hnone)).symm⟩

theorem Answered.run (h : d.Answered framing limit s given failures) (calls : List Call) :
    ∃ given' failures', (d.run calls).1.Answered framing limit (s ++ received calls) given' failures' ∧
      answersOf given' failures' = answersOf given failures ++ (d.run calls).2 := by
  induction calls generalizing d s given failures with
  | nil => exact ⟨given, failures, by rwa [received, List.append_nil], (List.append_nil _).symm⟩
  | cons call calls ih =>
      cases call with
      | feed bytes =>
          have hrest := ih (h.feed bytes)
          rwa [List.append_assoc] at hrest
      | next =>
          obtain ⟨hnext, hanswers⟩ := h.next
          obtain ⟨given', failures', hrest, hanswers'⟩ := ih hnext
          refine ⟨given', failures', hrest, ?_⟩
          rw [hanswers', hanswers, List.append_assoc]
          rfl

/-- A decoder that is asked until it has no frame has handed out all there are. -/
theorem Answered.drain (h : d.Answered framing limit s given failures) :
    ∃ given' failures', d.drain.1.Answered framing limit s given' failures' ∧
      answersOf given' failures' = answersOf given failures ++ d.drain.2.answers ∧
      (failures' = [] → d.drain.1.Quiet) := by
  fun_induction Decoder.drain d generalizing given failures with
  | case1 d e frame hd last harvest hdrain ih =>
      have hnext := h.next
      simp only [hd] at hnext
      obtain ⟨he, hanswers⟩ := hnext
      have hrest := ih he
      simp only [hdrain] at hrest
      obtain ⟨given', failures', hlast, hanswers', hquiet⟩ := hrest
      refine ⟨given', failures', hlast, ?_, hquiet⟩
      rw [hanswers', hanswers, List.append_assoc]
      rfl
  | case2 d e hd =>
      have hnext := h.next
      have hquiet := (handover_next h.follows.sound).quiet
      simp only [hd] at hnext hquiet
      obtain ⟨he, hanswers⟩ := hnext
      exact ⟨_, _, he, hanswers, fun _ => hquiet trivial⟩
  | case3 d e desync hd =>
      have hnext := h.next
      simp only [hd] at hnext
      obtain ⟨he, hanswers⟩ := hnext
      exact ⟨_, _, he, hanswers, fun hnone => absurd hnone (by simp [handedFailures])⟩

/-- At the end of the stream a decoder hands out all that is left, and counts what it discards. -/
theorem Ends.drainEnd {p : Parse} (h : d.Ends p given) :
    p.whole = given ++ d.drainEnd.2.frames ∧
      match p.ending.tail? with
      | some tail => d.drainEnd.2.desync = none ∧ d.drainEnd.1.discarded = d.discarded + tail
      | none => d.drainEnd.2.desync ≠ none := by
  fun_induction Decoder.drainEnd d generalizing given with
  | case1 d e frame hd last harvest hdrain ih =>
      have hframe := h.of_frame frame
      simp only [hd] at hframe
      obtain ⟨hdiscarded, he⟩ := hframe trivial
      have hrest := ih he
      rw [hdrain, hdiscarded] at hrest
      obtain ⟨hwhole, htail⟩ := hrest
      exact ⟨by rw [hwhole, List.append_assoc]; rfl, htail⟩
  | case2 d e hd =>
      have hnothing := h.of_nothing
      simp only [hd] at hnothing
      obtain ⟨tail, hdiscarded, hwhole, htail⟩ := hnothing trivial
      rw [htail, List.append_nil]
      exact ⟨hwhole, rfl, hdiscarded⟩
  | case3 d e desync hd =>
      have hlost := h.of_lost desync
      simp only [hd] at hlost
      obtain ⟨-, hwhole, htail⟩ := hlost trivial
      rw [htail, List.append_nil]
      exact ⟨hwhole, fun hnone => nomatch hnone⟩

/-! ## What all calls together answer -/

theorem answered_drained (framing : Framing) (limit : Nat) (calls : List Call) :
    ∃ given failures,
      ((start framing limit).drained calls).1.Answered framing limit (received calls) given failures ∧
      ((start framing limit).drained calls).2 = answersOf given failures ∧
      (failures = [] → ((start framing limit).drained calls).1.Quiet) := by
  obtain ⟨given, failures, hrun, hanswers⟩ := (answered_start framing limit).run calls
  obtain ⟨given', failures', hdrain, hanswers', hquiet⟩ := hrun.drain
  refine ⟨given', failures', hdrain, ?_, hquiet⟩
  rw [hanswers', hanswers]
  rfl

/-- The frames that are known come at once. -/
theorem drained_answers (framing : Framing) (limit : Nat) (calls : List Call) (more : Bytes) :
    ∃ failures, ((start framing limit).drained calls).2
        = answersOf (((framing.meaning limit (received calls ++ more)).known (received calls).length).map (·.frame))
            failures ∧
      (failures ≠ [] ↔ (framing.meaning limit (received calls)).ending = .desync) := by
  obtain ⟨given, failures, hdrained, hanswers, hquiet⟩ := answered_drained framing limit calls
  rw [Framing.known_meaning, hanswers]
  refine ⟨failures, ?_⟩
  by_cases hnone : failures = []
  · obtain ⟨last, tail, hframes, hending⟩ := hdrained.follows.meaning_of_quiet (hquiet hnone)
    rw [← hframes, hending]
    exact ⟨rfl, fun hne => absurd hnone hne, fun hlost => nomatch hlost⟩
  · obtain ⟨hframes, hending⟩ := hdrained.follows.meaning_of_lost (hdrained.lost hnone) []
    rw [List.append_nil] at hframes hending
    rw [← hframes, hending]
    exact ⟨rfl, fun _ => rfl, fun _ => hnone⟩

theorem finished_answers (framing : Framing) (limit : Nat) (calls : List Call) :
    ∃ failures, ((start framing limit).finished calls).2
        = answersOf (framing.meaning limit (received calls)).whole failures ∧
      match (framing.meaning limit (received calls)).ending.tail? with
      | some tail => failures = [] ∧ ((start framing limit).finished calls).1.discarded = tail
      | none => failures ≠ [] := by
  obtain ⟨given, failures, hdrained, hanswers, -⟩ := answered_drained framing limit calls
  obtain ⟨hwhole, htail⟩ := hdrained.follows.ends.drainEnd
  rw [hdrained.discarded] at htail
  generalize hd : (start framing limit).drained calls = result at *
  obtain ⟨d, answered⟩ := result
  subst hanswers
  have hfinished : (start framing limit).finished calls
      = (d.drainEnd.1, answersOf given failures ++ d.drainEnd.2.answers) := by rw [finished, hd]
  rw [hfinished]
  refine ⟨failures ++ d.drainEnd.2.desync.toList, ?_, ?_⟩
  · rw [hwhole]
    refine answersOf_append _ ?_
    by_cases hnone : failures = []
    · exact Or.inl hnone
    · obtain ⟨hframes, hending⟩ := hdrained.follows.meaning_of_lost (hdrained.lost hnone) []
      rw [List.append_nil] at hframes hending
      rw [Parse.whole, hframes, hending] at hwhole
      exact Or.inr (List.append_cancel_left hwhole).symm
  · cases hending : (framing.meaning limit (received calls)).ending with
    | desync =>
        rw [hending] at htail
        show failures ++ d.drainEnd.2.desync.toList ≠ []
        intro hnil
        rw [List.append_eq_nil_iff, Option.toList_eq_nil_iff] at hnil
        exact htail hnil.2
    | closed last tail =>
        rw [hending] at htail
        obtain ⟨hdesync, hdiscarded⟩ := htail
        have hnone : failures = [] := by
          by_cases hne : failures = []
          · exact hne
          · have hlost := (hdrained.follows.meaning_of_lost (hdrained.lost hne) []).2
            rw [List.append_nil, hending] at hlost
            cases hlost
        rw [hnone, hdesync]
        exact ⟨rfl, hdiscarded.trans (Nat.zero_add tail)⟩

/-! ## The framings -/

/-- Where the stream does not lose its synchronisation, a decoder never fails. -/
theorem answers_of_closed (framing : Framing) {limit : Nat} {calls : List Call} {last : Option Malformed}
    {tail : Nat} (h : (framing.meaning limit (received calls)).ending = .closed last tail) :
    ((start framing limit).finished calls).2 = (framing.meaning limit (received calls)).whole.map .ok ∧
      ((start framing limit).finished calls).1.discarded = tail ∧
      ∀ more, ((start framing limit).drained calls).2
        = ((framing.meaning limit (received calls ++ more)).known (received calls).length).map (.ok ·.frame) := by
  obtain ⟨failures, hfinished, htail⟩ := finished_answers framing limit calls
  rw [h] at htail
  obtain ⟨rfl, hdiscarded⟩ := htail
  refine ⟨hfinished.trans (List.append_nil _), hdiscarded, fun more => ?_⟩
  obtain ⟨failures, hdrained, hlost⟩ := drained_answers framing limit calls more
  have hnone : failures = [] := by
    by_cases hne : failures = []
    · exact hne
    · have hdesync := hlost.mp hne
      rw [h] at hdesync
      cases hdesync
  rw [hdrained, hnone, answersOf, List.map_nil, List.append_nil, List.map_map]
  rfl

/-- A decoder of tagged records answers what the stream means, and never fails. -/
theorem answers_tagged (limit : Nat) (calls : List Call) :
    let s := received calls
    let p := Tagged.parse limit 0 s
    ((start .tagged limit).finished calls).2 = p.whole.map .ok ∧
      p.ending.tail? = some ((start .tagged limit).finished calls).1.discarded ∧
      ∀ more, ((start .tagged limit).drained calls).2
        = ((Tagged.parse limit 0 (s ++ more)).known s.length).map (.ok ·.frame) := by
  intro s p
  obtain ⟨last, tail, hending⟩ := Tagged.ending_parse limit 0 s
  obtain ⟨hfinished, hdiscarded, hdrained⟩ := answers_of_closed .tagged hending
  refine ⟨hfinished, ?_, hdrained⟩
  rw [hending, hdiscarded]
  rfl

/-- A decoder of lines answers what the stream means, and never fails. -/
theorem answers_newline (limit : Nat) (calls : List Call) :
    let s := received calls
    let p := Newline.parse limit 0 s
    ((start .newline limit).finished calls).2 = p.frames.map .ok ∧
      p.ending = .closed none ((start .newline limit).finished calls).1.discarded ∧
      ∀ more, ((start .newline limit).drained calls).2
        = ((Newline.parse limit 0 (s ++ more)).known s.length).map (.ok ·.frame) := by
  intro s p
  obtain ⟨tail, hending⟩ := Newline.ending_parse limit 0 s
  obtain ⟨hfinished, hdiscarded, hdrained⟩ := answers_of_closed .newline hending
  refine ⟨?_, ?_, hdrained⟩
  · rw [← Parse.whole_of_ending hending]
    exact hfinished
  · rw [hending, hdiscarded]

/-- A decoder of counted records answers what the stream means, and fails where the stream loses its
synchronisation. -/
theorem answers_octetCounting (limit : Nat) (calls : List Call) :
    let s := received calls
    let p := OctetCounting.parse limit 0 s
    (∃ failures, ((start .octetCounting limit).finished calls).2 = p.frames.map .ok ++ failures.map .error ∧
        (failures ≠ [] ↔ p.ending = .desync)) ∧
      (p.ending ≠ .desync → p.ending = .closed none ((start .octetCounting limit).finished calls).1.discarded) ∧
      ∀ more, ∃ failures, ((start .octetCounting limit).drained calls).2
          = ((OctetCounting.parse limit 0 (s ++ more)).known s.length).map (.ok ·.frame) ++ failures.map .error ∧
        (failures ≠ [] ↔ p.ending = .desync) := by
  intro s p
  obtain ⟨failures, hfinished, htail⟩ := finished_answers .octetCounting limit calls
  have hmeaning : Framing.octetCounting.meaning limit (received calls) = p := rfl
  rw [hmeaning] at hfinished htail
  have hprompt : ∀ more, ∃ failures, ((start .octetCounting limit).drained calls).2
      = ((OctetCounting.parse limit 0 (s ++ more)).known s.length).map (.ok ·.frame) ++ failures.map .error ∧
        (failures ≠ [] ↔ p.ending = .desync) := by
    intro more
    obtain ⟨failures, hdrained, hlost⟩ := drained_answers .octetCounting limit calls more
    rw [answersOf, List.map_map] at hdrained
    exact ⟨failures, hdrained, hlost⟩
  rcases OctetCounting.ending_parse limit 0 s with hending | ⟨tail, hending⟩
  · rw [hending] at htail
    rw [Parse.whole, hending, Ending.frames, List.append_nil] at hfinished
    exact ⟨⟨failures, hfinished, fun _ => hending, fun _ => htail⟩, fun hne => absurd hending hne, hprompt⟩
  · rw [Parse.whole_of_ending hending] at hfinished
    rw [hending] at htail
    obtain ⟨rfl, hdiscarded⟩ := htail
    refine ⟨⟨[], hfinished, fun hne => absurd rfl hne, fun hlost => ?_⟩, fun _ => ?_, hprompt⟩
    · rw [hending] at hlost
      cases hlost
    · rw [hending, hdiscarded]

end Decoder

end LogIntake
