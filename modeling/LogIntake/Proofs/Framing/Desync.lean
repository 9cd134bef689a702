import LogIntake.Proofs.Framing.Answers
import LogIntake.Proofs.Framing.Usage

/-!
# Lost for good

A decoder of counted records does not remember that it has failed: it looks at its buffer anew each time. But
it fails only when no length can be read there, whatever follows, and it leaves the buffer as it is (`Stuck`).
So more bytes may change the reason, and never the verdict.
-/

namespace LogIntake

namespace OctetCounting

/-- No length can be read at the front of the buffer, and there are no blanks to skip before it. -/
structure Stuck (f : Framer State) : Prop where
  state : f.state = .header
  front : f.buffer.dropWhile Bytes.isBlank = f.buffer
  bad : BadLength f.buffer

variable {f g : Framer State} {desync : Desync}

theorem Stuck.feed (h : Stuck f) (bytes : Bytes) : Stuck (f.feed bytes) := by
  refine ⟨h.state, ?_, h.bad.append bytes⟩
  have hne : f.buffer.dropWhile Bytes.isBlank ≠ [] := by
    rw [h.front]
    exact h.bad.ne_nil
  have hskip := Bytes.dropWhile_append_of_ne_nil hne bytes
  rwa [h.front] at hskip

theorem readHeader_of_badLength {s : Bytes} (hfront : s.dropWhile Bytes.isBlank = s) (h : BadLength s) :
    ∃ desync, readHeader s = .error desync := by
  have hreads := reads_readHeader (s := s.dropWhile Bytes.isBlank) eq_nil_of_beforeSpace_eq_nil
  rw [hfront] at hreads
  generalize readHeader s = result at hreads
  cases hreads with
  | bad desync _ => exact ⟨desync, rfl⟩
  | unfinished hgood _ => exact absurd h hgood
  | complete hgood _ => exact absurd h hgood

theorem Stuck.next (h : Stuck f) : ∃ desync, next f = (f, .error desync) := by
  obtain ⟨desync, hread⟩ := readHeader_of_badLength h.front h.bad
  obtain ⟨limit, state, buffer, discarded⟩ := f
  obtain rfl : state = .header := h.state
  refine ⟨desync, ?_⟩
  have hfront : buffer.dropWhile Bytes.isBlank = buffer := h.front
  simp only [OctetCounting.next, header, hfront, hread]

theorem Stuck.finish (h : Stuck f) : ∃ desync, finish f = (f, .error desync) := by
  obtain ⟨desync, hnext⟩ := h.next
  exact ⟨desync, by simp only [OctetCounting.finish, hnext]⟩

/-! ## Where a decoder fails -/

theorem stuck_header (h : header f = (g, .error desync)) : Stuck g := by
  have hreads := reads_readHeader (s := f.buffer.dropWhile Bytes.isBlank) eq_nil_of_beforeSpace_eq_nil
  unfold header body at h
  simp only at h
  split at h
  · next hread =>
      rw [hread] at hreads
      obtain rfl := (Prod.mk.inj h).1
      cases hreads with
      | bad _ hbad =>
          have hskipped := Bytes.dropWhile_append_of_ne_nil hbad.ne_nil []
          rw [List.append_nil] at hskipped
          exact ⟨rfl, hskipped, hbad⟩
  · cases h
  · split at h
    · cases h
    · split at h
      · cases h
      · cases h

theorem stuck_next (h : next f = (g, .error desync)) : Stuck g := by
  unfold next at h
  split at h
  · exact stuck_header h
  · unfold body at h
    split at h
    · cases h
    · cases h
  · unfold skip at h
    simp only at h
    split at h
    · cases h
    · exact stuck_header h

theorem stuck_finish (h : finish f = (g, .error desync)) : Stuck g := by
  unfold finish at h
  split at h
  · split at h
    · cases h
    · cases h
  · exact stuck_next h

end OctetCounting

namespace Decoder

def Stuck : Decoder → Prop
  | .octetCounting f => OctetCounting.Stuck f
  | _ => False

variable {d : Decoder} {desync : Desync}

/-- Operations on a decoder that is stuck only add to its buffer, and every call fails. -/
theorem Stuck.operate (h : d.Stuck) (op : Operation) :
    (d.operate op).1 = d.feed op.bytes ∧ (d.operate op).1.Stuck ∧
      ∀ answer ∈ (d.operate op).2, ∃ desync, answer = .error desync := by
  cases d with
  | tagged f => cases h
  | newline f => cases h
  | octetCounting f =>
      have hsame := (octetCounting f).feed_nil
      cases op with
      | feed bytes => exact ⟨rfl, OctetCounting.Stuck.feed h bytes, nofun⟩
      | next =>
          obtain ⟨desync, hnext⟩ := OctetCounting.Stuck.next h
          simp only [Decoder.operate, Decoder.next, hnext]
          exact ⟨hsame.symm, h, List.forall_mem_singleton.mpr ⟨desync, rfl⟩⟩
      | finish =>
          obtain ⟨desync, hfinish⟩ := OctetCounting.Stuck.finish h
          simp only [Decoder.operate, Decoder.finish, hfinish]
          exact ⟨hsame.symm, h, List.forall_mem_singleton.mpr ⟨desync, rfl⟩⟩

theorem Stuck.use (h : d.Stuck) (ops : List Operation) :
    (d.use ops).1 = d.feed (fed ops) ∧ ∀ answer ∈ (d.use ops).2, ∃ desync, answer = .error desync := by
  induction ops generalizing d with
  | nil => exact ⟨d.feed_nil.symm, nofun⟩
  | cons op ops ih =>
      obtain ⟨hsame, hstuck, hfails⟩ := h.operate op
      obtain ⟨hlast, hmore⟩ := ih hstuck
      refine ⟨?_, List.forall_mem_append.mpr ⟨hfails, hmore⟩⟩
      rw [use_cons, hlast, hsame, feed_feed]
      rfl

/-- A decoder is stuck once it has failed. -/
theorem stuck_of_operate {op : Operation} (h : (d.operate op).2 = [.error desync]) : (d.operate op).1.Stuck := by
  cases d with
  | octetCounting f =>
      cases op with
      | feed bytes => cases h
      | next => exact OctetCounting.stuck_next (Prod.ext rfl (List.singleton_inj.mp h))
      | finish => exact OctetCounting.stuck_finish (Prod.ext rfl (List.singleton_inj.mp h))
  | _ =>
      -- The decoders of the other framings do not fail.
      cases op with
      | feed bytes => cases h
      | next => cases List.singleton_inj.mp h
      | finish => cases List.singleton_inj.mp h

/-- A decoder that has failed fails at every later call, whatever it is fed before, between and after: it hands out
no frame, discards nothing and keeps all that it is fed. -/
theorem desync_absorbing (d : Decoder) (op : Operation) (desync : Desync) (h : (d.operate op).2 = [.error desync])
    (ops : List Operation) :
    let lost := (d.operate op).1
    (∀ answer ∈ (lost.use ops).2, ∃ again, answer = .error again) ∧
      (lost.use ops).1.discarded = lost.discarded ∧
      (lost.use ops).1.buffer = lost.buffer ++ fed ops := by
  intro lost
  obtain ⟨hlast, hfails⟩ := (stuck_of_operate h).use ops
  refine ⟨hfails, ?_, ?_⟩
  · rw [hlast, discarded_feed]
  · rw [hlast, buffer_feed]

/-- A decoder of counted records fails at a letter in a length, and the records that follow do not help. -/
theorem desync_absorbing_letter :
    let d := (start .octetCounting 8).feed [49, 120]
    let ops : List Operation := [.finish, .feed [32, 49, 32, 65], .next, .feed [49, 32, 66, 32], .finish]
    (d.operate .next).2 = [.error .headerNotNumeric] ∧
      (∀ answer ∈ ((d.operate .next).1.use ops).2, ∃ again, answer = .error again) ∧
      ((d.operate .next).1.use ops).1.discarded = 0 ∧
      ((d.operate .next).1.use ops).1.buffer = [49, 120, 32, 49, 32, 65, 49, 32, 66, 32] := by
  intro d ops
  have hfails : (d.operate .next).2 = [.error .headerNotNumeric] := rfl
  exact ⟨hfails, desync_absorbing d .next .headerNotNumeric hfails ops⟩

end Decoder

end LogIntake
