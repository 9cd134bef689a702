import LogIntake.Proofs.Framing.Fresh
import Mathlib.Algebra.BigOperators.Group.List.Basic
import Mathlib.Algebra.GroupWithZero.Nat

/-!
# One stream after another

A decoder that has found nothing left at the end of a stream is a new one, but for the bytes that it has counted as
discarded (`Decoder.renewed`). So one decoder reads any number of streams, one after the other, as new ones would.
-/

namespace LogIntake

/-- What the end of a stream leaves when nothing is left of it. -/
theorem Framer.Meaning.Closure.eq_fresh {σ : Type} {m : Framer.Meaning σ} {f g : Framer σ}
    (h : m.Closure f g (.ok none)) :
    g = { limit := f.limit, state := m.fresh, buffer := [], discarded := g.discarded } := by
  obtain ⟨hbuffer, hstate, -⟩ := h.nothing rfl
  rw [← hbuffer, ← hstate, ← h.limit]

namespace Decoder

/-- A decoder before the first byte of a stream, when earlier ends of stream have discarded so many bytes. -/
def renewed (framing : Framing) (limit discarded : Nat) : Decoder :=
  match framing with
  | .tagged => .tagged { limit, state := .seeking 0, buffer := [], discarded }
  | .newline => .newline { limit, state := .scanning 0, buffer := [], discarded }
  | .octetCounting => .octetCounting { limit, state := .header, buffer := [], discarded }

/-- Some calls, and then the end of the stream until nothing is left. -/
def session (d : Decoder) (calls : List Call) : Decoder × List (Except Desync Frame) :=
  let (e, given) := d.run calls
  let (last, harvest) := e.drainEnd
  (last, given ++ harvest.answers)

/-- One stream after the other, each with its end. -/
def sessions (d : Decoder) : List (List Call) → Decoder × List (Except Desync Frame)
  | [] => (d, [])
  | calls :: streams =>
    let (e, given) := d.session calls
    let (last, more) := e.sessions streams
    (last, given ++ more)

variable {d e : Decoder} {framing : Framing} {limit discarded : Nat} {s : Bytes} {given : List Frame}

/-! ## Decoders that are as good as new -/

theorem renewed_zero (framing : Framing) (limit : Nat) : renewed framing limit 0 = start framing limit := by
  cases framing <;> rfl

@[simp] theorem buffer_renewed : (renewed framing limit discarded).buffer = [] := by
  cases framing <;> rfl

@[simp] theorem discarded_renewed : (renewed framing limit discarded).discarded = discarded := by
  cases framing <;> rfl

@[simp] theorem framing_renewed : (renewed framing limit discarded).framing = framing := by
  cases framing <;> rfl

@[simp] theorem limit_renewed : (renewed framing limit discarded).limit = limit := by
  cases framing <;> rfl

/-- At once after the end of a stream the end finds nothing, and changes nothing. -/
theorem finish_renewed : (renewed framing limit discarded).finish = (renewed framing limit discarded, .ok none) := by
  cases framing with
  | tagged => rfl
  | newline => simp only [renewed, finish, Newline.finish, Newline.next, Newline.scan_nil]; rfl
  | octetCounting => rfl

theorem follows_renewed (framing : Framing) (limit discarded : Nat) :
    (renewed framing limit discarded).Follows framing limit [] [] := by
  have hstart := follows_start framing limit
  cases framing with
  | _ => exact ⟨hstart.sound, hstart.yields⟩

/-! ## The end of a stream -/

theorem framing_finish (d : Decoder) : d.finish.1.framing = d.framing := by
  cases d <;> rfl

theorem limit_finish (h : d.Sound) : d.finish.1.limit = d.limit := by
  cases d with
  | tagged f => exact (Tagged.closure_finish h).limit
  | newline f => exact (Newline.closure_finish h).limit
  | octetCounting f => exact (OctetCounting.closure_finish f).limit

theorem eq_renewed_of_finish (hs : d.Sound) (h : d.finish = (e, .ok none)) :
    e = renewed d.framing d.limit e.discarded := by
  cases d with
  | tagged f =>
      simp only [finish, Prod.mk.injEq, Except.ok.injEq] at h
      have hfinish := Tagged.closure_finish hs
      rw [h.2] at hfinish
      rw [← h.1]
      exact congrArg Decoder.tagged hfinish.eq_fresh
  | newline f =>
      simp only [finish, Prod.mk.injEq, Except.ok.injEq] at h
      have hfinish := Newline.closure_finish hs
      rw [h.2] at hfinish
      rw [← h.1]
      exact congrArg Decoder.newline hfinish.eq_fresh
  | octetCounting f =>
      simp only [finish, Prod.mk.injEq] at h
      have hfinish := OctetCounting.closure_finish f
      rw [h.2] at hfinish
      rw [← h.1]
      exact congrArg Decoder.octetCounting hfinish.eq_fresh

/-- However much the end of a stream brings up, the decoder is as good as new when nothing is left. -/
theorem eq_renewed_of_drainEnd (hs : d.Sound) (h : d.drainEnd.2.desync = none) :
    d.drainEnd.1 = renewed d.framing d.limit d.drainEnd.1.discarded := by
  fun_induction drainEnd d with
  | case1 d e frame hd last harvest hdrain ih =>
      have he := (closure_finish hs).sound
      have hframing := d.framing_finish
      have hlimit := limit_finish hs
      simp only [hd] at he hframing hlimit
      rw [hdrain] at ih
      rw [← hframing, ← hlimit]
      exact ih he h
  | case2 d e hd => exact eq_renewed_of_finish hs hd
  | case3 d e desync hd => cases h

/-! ## A whole stream -/

/-- As long as the stream does not lose its synchronisation, all answers on the way are frames. -/
theorem Follows.run_of_closed (h : d.Follows framing limit s given) (calls : List Call)
    (hclosed : (framing.meaning limit (s ++ received calls)).ending ≠ .desync) :
    ∃ more, (d.run calls).2 = more.map .ok ∧ (d.run calls).1.discarded = d.discarded ∧
      (d.run calls).1.Follows framing limit (s ++ received calls) (given ++ more) := by
  induction calls generalizing d s given with
  | nil => exact ⟨[], rfl, rfl, by simpa [received, run] using h⟩
  | cons call calls ih =>
      cases call with
      | feed bytes =>
          rw [received, ← List.append_assoc] at hclosed
          obtain ⟨more, hanswers, hdiscarded, hfollows⟩ := ih (h.feed bytes) hclosed
          rw [List.append_assoc] at hfollows
          exact ⟨more, hanswers, hdiscarded.trans (discarded_feed d bytes), hfollows⟩
      | next =>
          have hhandover := handover_next h.sound
          cases hanswer : d.next.2 with
          | error desync =>
              have hlost := h.next.meaning_of_lost (hhandover.lost desync hanswer) (received calls)
              exact absurd hlost.2 hclosed
          | ok frame =>
              have hnext := h.next
              rw [hanswer] at hnext
              obtain ⟨more, hanswers, hdiscarded, hfollows⟩ := ih hnext hclosed
              rw [List.append_assoc] at hfollows
              refine ⟨frame.toList ++ more, ?_, hdiscarded.trans hhandover.discarded, hfollows⟩
              show answers d.next.2 ++ (d.next.1.run calls).2 = _
              rw [hanswer, hanswers]
              simp [answers, answersOf, handedFrames, handedFailures]

/-- A decoder that is as good as new reads a whole stream as a new one, and is as good as new again. -/
theorem session_renewed {calls : List Call} (h : (framing.meaning limit (received calls)).ending ≠ .desync) :
    (renewed framing limit discarded).session calls
      = (renewed framing limit (discarded + (framing.meaning limit (received calls)).ending.tail?.getD 0),
        (framing.meaning limit (received calls)).whole.map .ok) := by
  obtain ⟨given, hanswers, hdiscarded, hfollows⟩ := (follows_renewed framing limit discarded).run_of_closed calls h
  obtain ⟨hwhole, hend⟩ := hfollows.ends.drainEnd
  rw [List.nil_append] at hend hwhole
  cases hending : (framing.meaning limit (received calls)).ending with
  | desync => exact absurd hending h
  | closed last tail =>
      rw [hending] at hend
      obtain ⟨hdesync, hcount⟩ := hend
      obtain ⟨-, hlimit, hframing⟩ := kept_run (follows_renewed framing limit discarded).sound calls
      have hlast := eq_renewed_of_drainEnd hfollows.sound hdesync
      rw [hframing, hlimit, hcount, hdiscarded, framing_renewed, limit_renewed, discarded_renewed] at hlast
      refine Prod.ext hlast ?_
      show ((renewed framing limit discarded).run calls).2 ++ Harvest.answers _ = _
      rw [hanswers, hwhole, Harvest.answers, hdesync]
      simp [answersOf]

/-! ## One stream after another -/

theorem sessions_renewed {streams : List (List Call)}
    (h : ∀ calls ∈ streams, (framing.meaning limit (received calls)).ending ≠ .desync) :
    (renewed framing limit discarded).sessions streams
      = (renewed framing limit (discarded
          + (streams.map fun calls => (framing.meaning limit (received calls)).ending.tail?.getD 0).sum),
        streams.flatMap fun calls => (framing.meaning limit (received calls)).whole.map .ok) := by
  induction streams generalizing discarded with
  | nil => rfl
  | cons calls streams ih =>
      obtain ⟨hfirst, hrest⟩ := List.forall_mem_cons.mp h
      simp only [sessions, session_renewed hfirst, ih hrest, List.map_cons, List.sum_cons, List.flatMap_cons,
        Nat.add_assoc]

/-- Streams that do not lose their synchronisation come one after the other, in any pieces, each with its end. A
decoder that reads them all answers what new decoders would, one for each, in whatever pieces these receive their
streams: it hands out the frames of each, and discards in all what they discard. After each end its buffer is empty,
and the end is found once more without anything left and without any change. -/
theorem reads_streams_anew (framing : Framing) (limit : Nat) (streams : List (List Call))
    (h : ∀ calls ∈ streams, (framing.meaning limit (received calls)).ending ≠ .desync) :
    let used := (start framing limit).sessions streams
    used.2 = streams.flatMap (fun calls => (framing.meaning limit (received calls)).whole.map .ok) ∧
      (∀ alone : List (List Call), alone.map received = streams.map received →
        used.2 = alone.flatMap (fun calls => ((start framing limit).session calls).2) ∧
          used.1.discarded = (alone.map fun calls => ((start framing limit).session calls).1.discarded).sum) ∧
      ∀ done rest, streams = done ++ rest →
        let d := ((start framing limit).sessions done).1
        d.buffer = [] ∧ d.finish = (d, .ok none) := by
  simp only [← renewed_zero]
  refine ⟨by rw [sessions_renewed h], fun alone hsame => ?_, fun done rest hdone => ?_⟩
  · have hclosed : ∀ calls ∈ alone, (framing.meaning limit (received calls)).ending ≠ .desync := by
      intro calls hcalls
      have hmem : received calls ∈ streams.map received := hsame ▸ List.mem_map_of_mem hcalls
      obtain ⟨calls', hcalls', hreceived⟩ := List.mem_map.mp hmem
      exact hreceived ▸ h calls' hcalls'
    have hanswers : alone.flatMap (fun calls => ((renewed framing limit 0).session calls).2)
        = (alone.map received).flatMap fun s => (framing.meaning limit s).whole.map .ok := by
      rw [List.flatMap_map, List.flatMap_def, List.flatMap_def]
      exact congrArg _ (List.map_congr_left fun calls hcalls => by rw [session_renewed (hclosed calls hcalls)])
    have htails : alone.map (fun calls => ((renewed framing limit 0).session calls).1.discarded)
        = (alone.map received).map fun s => (framing.meaning limit s).ending.tail?.getD 0 := by
      rw [List.map_map]
      exact List.map_congr_left fun calls hcalls => by
        rw [session_renewed (hclosed calls hcalls), discarded_renewed, Nat.zero_add]
        rfl
    rw [sessions_renewed h, hanswers, htails, hsame, List.flatMap_map, List.map_map, discarded_renewed, Nat.zero_add]
    exact ⟨rfl, rfl⟩
  · have hclosed : ∀ calls ∈ done, (framing.meaning limit (received calls)).ending ≠ .desync :=
      fun calls hcalls => h calls (hdone ▸ List.mem_append_left rest hcalls)
    rw [sessions_renewed hclosed]
    exact ⟨buffer_renewed, finish_renewed⟩

/-- Three streams of counted records, of which two end within a record and within a length, read in pieces and by
new decoders at once. -/
theorem reads_streams_anew_cut_off :
    let streams : List (List Call) :=
      [[.feed [49, 32, 65, 51], .next, .feed [32, 66]], [.feed [49], .next, .feed [50]], [.feed [32, 49, 32, 67]]]
    let alone : List (List Call) := [[.feed [49, 32, 65, 51, 32, 66]], [.feed [49, 50]], [.feed [32, 49, 32, 67]]]
    let used := (start .octetCounting 8).sessions streams
    (∀ calls ∈ streams, (Framing.octetCounting.meaning 8 (received calls)).ending ≠ .desync) ∧
      alone.map received = streams.map received ∧
      used.2.filterMap Except.toOption = [.record [65], .record [67]] ∧
      used.2 = alone.flatMap (fun calls => ((start .octetCounting 8).session calls).2) ∧
      used.1.discarded = (alone.map fun calls => ((start .octetCounting 8).session calls).1.discarded).sum ∧
      used.1.discarded = 3 ∧
      used.1.finish = (used.1, .ok none) := by
  intro streams alone used
  have hclosed : ∀ calls ∈ streams, (Framing.octetCounting.meaning 8 (received calls)).ending ≠ .desync := by
    decide +kernel
  obtain ⟨-, halone, hagain⟩ := reads_streams_anew .octetCounting 8 streams hclosed
  obtain ⟨hanswers, hdiscarded⟩ := halone alone rfl
  obtain ⟨-, hfinish⟩ := hagain streams [] rfl
  refine ⟨hclosed, rfl, ?_, hanswers, hdiscarded, ?_, hfinish⟩
  · decide +kernel
  · decide +kernel

end Decoder

end LogIntake
