import LogIntake.Proofs.Framing.Answers

/-!
# Decoders that are as good as new

Of a decoder that asks for more bytes only its future can be seen. When this is the future of a decoder
that has received nothing, then the decoder is one: nothing else is left in its state or its buffer
(`eq_start_of_alike`). So a stream that is made of whole units leaves no trace in a decoder, in whatever
pieces it came (`drained_of_whole`).
-/

namespace LogIntake

/-- The meaning of a stream that begins between two units, `start` bytes after the first. -/
def Framing.read (framing : Framing) (limit start : Nat) (s : Bytes) : Parse :=
  match framing with
  | .tagged => Tagged.parse limit start s
  | .newline => Newline.parse limit start s
  | .octetCounting => OctetCounting.parse limit start s

theorem Framing.read_zero (framing : Framing) (limit : Nat) (s : Bytes) :
    framing.read limit 0 s = framing.meaning limit s := by
  cases framing <;> rfl

theorem Framing.read_nil (framing : Framing) (limit start : Nat) : framing.read limit start [] = .rest none 0 := by
  cases framing with
  | tagged => exact Tagged.parse_nil limit start
  | newline => exact Newline.parse_of_findIdx?_none rfl limit start
  | octetCounting => exact OctetCounting.parse_nil limit start

/-- Two meanings with the same frames and the same end, wherever they begin. -/
def Parse.Alike (p q : Nat → Parse) : Prop :=
  ∃ i j, (p i).frames = (q j).frames ∧ (p i).ending = (q j).ending

theorem Framer.Meaning.leftover_eq {σ : Type} {m : Framer.Meaning σ} {g : Framer σ} {q : Nat → Parse}
    (hquiet : ∀ start, m.future g [] start = .rest (m.leftover g).1 (m.leftover g).2)
    (hnil : ∀ start, q start = .rest none 0) (h : Parse.Alike (m.future g []) q) : m.leftover g = (none, 0) := by
  obtain ⟨i, j, -, hending⟩ := h
  rw [hquiet, hnil, Parse.rest, Parse.rest, Ending.closed.injEq] at hending
  exact Prod.ext hending.1 hending.2

/-! ## The framings -/

namespace Tagged

theorem parse_closeTag (limit start : Nat) : parse limit start closeTag = .rest (unframed 6) 0 := by
  rw [parse]
  rfl

/-- A close tag tells a decoder inside of a record from one outside. -/
theorem eq_start_of_alike {g : Framer State} (hs : Sound g) (hd : g.discarded = 0) (hleft : leftover g = (none, 0))
    (h : ∀ more, Parse.Alike (future g more) fun start => parse g.limit start more) :
    g = .start g.limit (.seeking 0) := by
  obtain ⟨hlast, htail⟩ := Prod.mk.inj hleft
  obtain ⟨limit, state, buffer, discarded⟩ := g
  obtain rfl : discarded = 0 := hd
  cases state with
  | seeking junk =>
      obtain rfl : buffer = [] := List.length_eq_zero_iff.mp htail
      obtain rfl : junk = 0 := by
        by_cases hjunk : junk = 0
        · exact hjunk
        · simp [unframed, hjunk] at hlast
      rfl
  | inRecord scanned =>
      obtain rfl : buffer = [] := List.length_eq_zero_iff.mp htail
      obtain ⟨i, j, hframes, -⟩ := h closeTag
      simp only [parse_closeTag] at hframes
      have hfound : Bytes.indexOf? closeTag closeTag = some 0 := by decide
      have hone := inside_of_indexOf? hfound limit i 0 []
      obtain ⟨k, hinside, -⟩ := hone
      rw [List.append_nil] at hinside
      cases hinside.symm.trans hframes
  | discarding skipped =>
      have hskipped : skipped + buffer.length = 0 := htail
      have hlimit : limit < skipped := hs
      omega

end Tagged

namespace Newline

theorem scan_nil (limit discarded : Nat) :
    scan ⟨limit, .scanning 0, [], discarded⟩ 0 = (⟨limit, .scanning 0, [], discarded⟩, none) := by
  rw [scan]
  split
  · next hfound => cases hfound
  · rfl

theorem eq_start_of_leftover {g : Framer State} (hs : Sound g) (hd : g.discarded = 0)
    (hleft : leftover g = (none, 0)) : g = .start g.limit (.scanning 0) := by
  have htail := congrArg Prod.snd hleft
  obtain ⟨limit, state, buffer, discarded⟩ := g
  obtain rfl : discarded = 0 := hd
  cases state with
  | scanning checked =>
      obtain rfl : buffer = [] := List.length_eq_zero_iff.mp htail
      obtain rfl : checked = 0 := Nat.le_zero.mp hs.1
      rfl
  | discarding skipped after =>
      have hskipped : skipped + buffer.length = 0 := htail
      have hlimit : limit < skipped - after.toNat := hs
      omega

end Newline

namespace OctetCounting

/-- A decoder that asks for more while it skips a record has dropped all that has come of it. -/
theorem skipping_of_next {f g : Framer State} {remaining : Nat} (h : next f = (g, .ok none))
    (hg : g.state = .skip remaining) : g.buffer = [] ∧ 0 < remaining := by
  have hbody : ∀ (f : Framer State) length, body f length = (g, .ok none) → g.state ≠ .skip remaining := by
    intro f length hbody
    unfold body at hbody
    split at hbody
    · rw [← (Prod.mk.inj hbody).1]
      exact fun hs => nomatch hs
    · cases hbody
  have hheader : ∀ f : Framer State, header f = (g, .ok none) → g.state ≠ .skip remaining := by
    intro f hheader
    unfold header at hheader
    simp only at hheader
    split at hheader
    · cases hheader
    · rw [← (Prod.mk.inj hheader).1]
      exact fun hs => nomatch hs
    · split at hheader
      · cases hheader
      · exact hbody _ _ hheader
  unfold next at h
  split at h
  · exact absurd hg (hheader f h)
  · exact absurd hg (hbody f _ h)
  · next before _ =>
      unfold skip at h
      simp only at h
      split at h
      · next hlt =>
          obtain rfl := (Prod.mk.inj h).1
          obtain rfl : before - f.buffer.length = remaining := State.skip.inj hg
          exact ⟨List.drop_eq_nil_of_le (by omega), by omega⟩
      · exact absurd hg (hheader _ h)

/-- A letter: no length begins with it. -/
theorem parse_letter (limit start : Nat) : parse limit start [65] = .lost := by
  rw [parse_eq, atLength, if_pos (by decide)]

/-- A letter tells a decoder inside of a record from one that reads a length. -/
theorem eq_start_of_alike {f g : Framer State} (hf : next f = (g, .ok none)) (hd : g.discarded = 0)
    (hleft : leftover g = (none, 0))
    (h : ∀ more, Parse.Alike (future g more) fun start => parse g.limit start more) :
    g = .start g.limit .header := by
  have htail := congrArg Prod.snd hleft
  obtain ⟨i, j, hframes, hlost⟩ := h [65]
  simp only [parse_letter] at hframes hlost
  have hskipping := @skipping_of_next f g
  obtain ⟨limit, state, buffer, discarded⟩ := g
  obtain rfl : discarded = 0 := hd
  cases state with
  | header =>
      obtain rfl : buffer = [] := List.length_eq_zero_iff.mp htail
      rfl
  | body length =>
      obtain rfl : buffer = [] := List.length_eq_zero_iff.mp htail
      simp only [future, List.nil_append, inBody] at hframes hlost
      split at hlost
      · cases hlost
      · next hlong =>
          rw [if_neg hlong, Parse.frames_prepend] at hframes
          cases hframes
  | skip remaining =>
      obtain ⟨rfl, hpos⟩ := hskipping hf rfl
      simp only [future, List.nil_append] at hlost
      rw [List.drop_eq_nil_of_le (by exact hpos), parse_nil] at hlost
      cases hlost

end OctetCounting

/-! ## A decoder that asks for more -/

namespace Decoder

theorem limit_next {d : Decoder} (h : d.Sound) : d.next.1.limit = d.limit := by
  cases d with
  | tagged f => exact (Tagged.handover_next h).limit
  | newline f => exact (Newline.handover_next h).limit
  | octetCounting f => exact (OctetCounting.handover_next f).limit

theorem limit_start (framing : Framing) (limit : Nat) : (start framing limit).limit = limit := by
  cases framing <;> rfl

theorem framing_start (framing : Framing) (limit : Nat) : (start framing limit).framing = framing := by
  cases framing <;> rfl

theorem finish_start (framing : Framing) (limit : Nat) :
    (start framing limit).finish = (start framing limit, .ok none) := by
  cases framing with
  | tagged => rfl
  | newline => simp only [start, finish, Newline.finish, Newline.next, Framer.start, Newline.scan_nil]; rfl
  | octetCounting => rfl

theorem drainEnd_of_finish {d e : Decoder} (h : d.finish = (e, .ok none)) : d.drainEnd = (e, ⟨[], none⟩) := by
  rw [drainEnd]
  split
  · next hf => rw [h] at hf; cases hf
  · next hf => rw [h] at hf; cases hf; rfl
  · next hf => rw [h] at hf; cases hf

theorem framing_next (d : Decoder) : d.next.1.framing = d.framing := by
  cases d <;> rfl

/-- A decoder that asks for more and has the future of a new one is a new one. -/
theorem eq_start_of_alike {d e : Decoder} (hs : d.Sound) (hn : d.next = (e, .ok none)) (hd : e.discarded = 0)
    (h : ∀ more, Parse.Alike (e.future more) fun start => e.framing.read e.limit start more) :
    e = start e.framing e.limit := by
  have hnil := fun start => e.framing.read_nil e.limit start
  cases d with
  | tagged f =>
      have hnext := Tagged.handover_next hs
      simp only [next, Prod.mk.injEq, Except.ok.injEq] at hn
      obtain ⟨rfl, hnone⟩ := hn
      have hleft := Framer.Meaning.leftover_eq (hnext.quiet (congrArg Except.ok hnone)) hnil (h [])
      exact congrArg Decoder.tagged (Tagged.eq_start_of_alike hnext.sound hd hleft h)
  | newline f =>
      have hnext := Newline.handover_next hs
      simp only [next, Prod.mk.injEq, Except.ok.injEq] at hn
      obtain ⟨rfl, hnone⟩ := hn
      have hleft := Framer.Meaning.leftover_eq (hnext.quiet (congrArg Except.ok hnone)) hnil (h [])
      exact congrArg Decoder.newline (Newline.eq_start_of_leftover hnext.sound hd hleft)
  | octetCounting f =>
      have hnext := OctetCounting.handover_next f
      simp only [next, Prod.mk.injEq] at hn
      obtain ⟨rfl, hnone⟩ := hn
      have hleft := Framer.Meaning.leftover_eq (hnext.quiet hnone) hnil (h [])
      exact congrArg Decoder.octetCounting (OctetCounting.eq_start_of_alike (Prod.ext rfl hnone) hd hleft h)

/-- A decoder that has been asked until it had no frame has come from one that asks for more. -/
theorem asked_of_drain {d : Decoder} (hs : d.Sound) (h : d.drain.2.desync = none) :
    ∃ f : Decoder, f.Sound ∧ f.next = (d.drain.1, .ok none) := by
  fun_induction Decoder.drain d with
  | case1 d e frame hd last harvest hdrain ih =>
      have he := (handover_next hs).sound
      rw [hd] at he
      have hrest := ih he
      rw [hdrain] at hrest
      exact hrest h
  | case2 d e hd => exact ⟨d, hs, hd⟩
  | case3 d e desync hd => cases h

theorem kept_drain {d : Decoder} (hs : d.Sound) : d.drain.1.limit = d.limit ∧ d.drain.1.framing = d.framing := by
  fun_induction Decoder.drain d with
  | case1 d e frame hd last harvest hdrain ih =>
      have he := (handover_next hs).sound
      have hlimit := limit_next hs
      have hframing := framing_next d
      rw [hd] at he hlimit hframing
      rw [hdrain] at ih
      exact ⟨(ih he).1.trans hlimit, (ih he).2.trans hframing⟩
  | case2 d e hd =>
      have hlimit := limit_next hs
      have hframing := framing_next d
      rw [hd] at hlimit hframing
      exact ⟨hlimit, hframing⟩
  | case3 d e desync hd =>
      have hlimit := limit_next hs
      have hframing := framing_next d
      rw [hd] at hlimit hframing
      exact ⟨hlimit, hframing⟩

theorem kept_run {d : Decoder} (hs : d.Sound) (calls : List Call) :
    (d.run calls).1.Sound ∧ (d.run calls).1.limit = d.limit ∧ (d.run calls).1.framing = d.framing := by
  induction calls generalizing d with
  | nil => exact ⟨hs, rfl, rfl⟩
  | cons call calls ih =>
      cases call with
      | feed bytes =>
          obtain ⟨hsound, hlimit, hframing⟩ := ih (sound_feed hs bytes)
          have hfeed : (d.feed bytes).limit = d.limit ∧ (d.feed bytes).framing = d.framing := by
            cases d <;> exact ⟨rfl, rfl⟩
          exact ⟨hsound, hlimit.trans hfeed.1, hframing.trans hfeed.2⟩
      | next =>
          obtain ⟨hsound, hlimit, hframing⟩ := ih (handover_next hs).sound
          exact ⟨hsound, hlimit.trans (limit_next hs), hframing.trans (framing_next d)⟩

/-! ## Drained on the way -/

theorem run_append (d : Decoder) (calls more : List Call) :
    d.run (calls ++ more) = (((d.run calls).1.run more).1, (d.run calls).2 ++ ((d.run calls).1.run more).2) := by
  induction calls generalizing d with
  | nil => rfl
  | cons call calls ih =>
      cases call with
      | feed bytes => exact ih (d.feed bytes)
      | next =>
          simp only [List.cons_append, run, ih]
          rw [List.append_assoc]

theorem received_append (calls more : List Call) : received (calls ++ more) = received calls ++ received more := by
  induction calls with
  | nil => rfl
  | cons call calls ih =>
      cases call with
      | feed bytes => rw [List.cons_append, received, received, ih, List.append_assoc]
      | next => exact ih

/-- To drain a decoder is to ask it some number of times. -/
theorem exists_run_drain (d : Decoder) : ∃ n, d.run (List.replicate n .next) = (d.drain.1, d.drain.2.answers) := by
  fun_induction Decoder.drain d with
  | case1 d e frame hd last harvest hdrain ih =>
      obtain ⟨n, hn⟩ := ih
      rw [hdrain] at hn
      refine ⟨n + 1, ?_⟩
      simp only [List.replicate_succ, run, hd, hn]
      rfl
  | case2 d e hd => exact ⟨1, by simp only [List.replicate_succ, run, hd]; rfl⟩
  | case3 d e desync hd => exact ⟨1, by simp only [List.replicate_succ, run, hd]; rfl⟩

theorem received_replicate_next (n : Nat) : received (List.replicate n .next) = [] := by
  induction n with
  | zero => rfl
  | succ n ih => exact ih

/-- A decoder may be drained before more calls. -/
theorem exists_calls_of_drained {d e : Decoder} {calls : List Call} {given : List (Except Desync Frame)}
    (h : d.drained calls = (e, given)) (more : List Call) :
    ∃ all, received all = received calls ++ received more ∧
      d.drained all = ((e.drained more).1, given ++ (e.drained more).2) ∧
      d.finished all = ((e.finished more).1, given ++ (e.finished more).2) := by
  obtain ⟨n, hn⟩ := exists_run_drain (d.run calls).1
  have hrun : d.run (calls ++ List.replicate n .next) = (e, given) := by
    rw [run_append, hn, ← h]
    rfl
  have hdrained : d.drained (calls ++ List.replicate n .next ++ more)
      = ((e.drained more).1, given ++ (e.drained more).2) := by
    rw [drained, run_append, hrun]
    exact Prod.ext rfl (List.append_assoc ..)
  refine ⟨calls ++ List.replicate n .next ++ more, ?_, hdrained, ?_⟩
  · rw [received_append, received_append, received_replicate_next, List.append_nil]
  · rw [finished, hdrained]
    exact Prod.ext rfl (List.append_assoc ..)

end Decoder

/-! ## Whole units -/

/-- Bytes that give some frames and leave the stream between two units, whatever comes behind. -/
def Framing.Whole (framing : Framing) (limit : Nat) (s : Bytes) (frames : List Frame) : Prop :=
  ∀ more start, (framing.read limit start (s ++ more)).Yields frames fun start => framing.read limit start more

section

variable {framing : Framing} {limit : Nat} {s t : Bytes} {frames more : List Frame}

theorem Framing.whole_nil (framing : Framing) (limit : Nat) : framing.Whole limit [] [] :=
  fun _ start => ⟨start, rfl, rfl⟩

theorem Framing.Whole.append (hs : framing.Whole limit s frames) (ht : framing.Whole limit t more) :
    framing.Whole limit (s ++ t) (frames ++ more) := by
  intro rest start
  rw [List.append_assoc]
  exact (hs (t ++ rest) start).trans (ht rest)

theorem Framing.Whole.meaning_eq (h : framing.Whole limit s frames) :
    (framing.meaning limit s).frames = frames ∧ (framing.meaning limit s).ending = .closed none 0 := by
  obtain ⟨start, hframes, hending⟩ := h [] 0
  rw [List.append_nil, framing.read_zero] at hframes hending
  simp only [framing.read_nil] at hframes hending
  exact ⟨hframes.trans (List.append_nil frames), hending⟩

namespace Decoder

variable {calls : List Call}

theorem desync_of_answers {given : List (Except Desync Frame)} {harvest : Harvest}
    (h : given ++ harvest.answers = answersOf frames []) : harvest.desync = none := by
  cases hdesync : harvest.desync with
  | none => rfl
  | some desync =>
      have hmem : Except.error desync ∈ given ++ harvest.answers := by simp [Harvest.answers, answersOf, hdesync]
      rw [h] at hmem
      simp [answersOf] at hmem

/-- A decoder that has received whole units only has handed out their frames and is as good as new. -/
theorem drained_of_whole (h : framing.Whole limit (received calls) frames) :
    (start framing limit).drained calls = (start framing limit, frames.map .ok) := by
  obtain ⟨given, failures, hdrained, hanswers, hquiet⟩ := answered_drained framing limit calls
  obtain ⟨hframes, hending⟩ := h.meaning_eq
  have hnone : failures = [] := by
    by_cases hne : failures = []
    · exact hne
    · have hlost := (hdrained.follows.meaning_of_lost (hdrained.lost hne) []).2
      rw [List.append_nil, hending] at hlost
      cases hlost
  subst hnone
  obtain ⟨_, _, hgiven, -⟩ := hdrained.follows.meaning_of_quiet (hquiet rfl)
  obtain rfl : given = frames := hgiven.symm.trans hframes
  obtain ⟨hsound, hlimit, hframing⟩ := kept_run (sound_start framing limit) calls
  obtain ⟨hlimit', hframing'⟩ := kept_drain hsound
  obtain ⟨asked, hasked, hnext⟩ := asked_of_drain hsound (desync_of_answers hanswers)
  generalize hd : (start framing limit).drained calls = result at *
  obtain ⟨d, answered⟩ := result
  obtain rfl : ((start framing limit).run calls).1.drain.1 = d := congrArg Prod.fst hd
  have hkept := And.intro (hframing'.trans hframing) (hlimit'.trans hlimit)
  generalize ((start framing limit).run calls).1.drain.1 = d at *
  rw [framing_start, limit_start] at hkept
  have hfresh := eq_start_of_alike hasked hnext hdrained.discarded fun more => by
    obtain ⟨i, hgiven, hrest⟩ := hdrained.follows.yields more
    obtain ⟨j, hwhole, hend⟩ := h more 0
    rw [framing.read_zero] at hwhole hend
    rw [hkept.1, hkept.2]
    exact ⟨i, j, List.append_cancel_left (hgiven.symm.trans hwhole), hrest.symm.trans hend⟩
  rw [hkept.1, hkept.2] at hfresh
  exact Prod.ext hfresh (hanswers.trans (List.append_nil _))

/-- At once after whole units the end of the stream finds nothing. -/
theorem finished_of_whole (h : framing.Whole limit (received calls) frames) :
    (start framing limit).finished calls = (start framing limit, frames.map .ok) := by
  rw [finished, drained_of_whole h]
  simp only [drainEnd_of_finish (finish_start framing limit)]
  exact Prod.ext rfl (List.append_nil _)

/-- What comes behind whole units is answered as if they had never been sent, in whatever pieces it comes. -/
theorem answers_behind (h : framing.Whole limit s frames) {later : List Call} {last : Option Malformed} {tail : Nat}
    (hreceived : received calls = s ++ received later)
    (hclosed : (framing.meaning limit (received calls)).ending = .closed last tail) :
    ((start framing limit).drained calls).2 = frames.map .ok ++ ((start framing limit).drained later).2 ∧
      ((start framing limit).finished calls).2 = frames.map .ok ++ ((start framing limit).finished later).2 ∧
      ((start framing limit).finished calls).1.discarded = ((start framing limit).finished later).1.discarded := by
  have hs : received [.feed s] = s := List.append_nil s
  have hwhole : framing.Whole limit (received [.feed s]) frames := by rwa [hs]
  obtain ⟨all, hall, hdrained, hfinished⟩ := exists_calls_of_drained (drained_of_whole hwhole) later
  rw [hs, ← hreceived] at hall
  have hclosed' := hclosed
  rw [← hall] at hclosed'
  obtain ⟨hanswers, hdiscarded, hknown⟩ := answers_of_closed framing hclosed
  obtain ⟨hanswers', hdiscarded', hknown'⟩ := answers_of_closed framing hclosed'
  rw [hall] at hanswers' hknown'
  refine ⟨?_, ?_, ?_⟩
  · rw [hknown [], ← hknown' [], hdrained]
  · rw [hanswers, ← hanswers', hfinished]
  · rw [hdiscarded, ← hdiscarded', hfinished]

end Decoder

end

end LogIntake
