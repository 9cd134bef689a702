import LogIntake.Proofs.Framing.Decoder
import LogIntake.Proofs.Framing.Usage

/-!
# What decoders retain

A call of a decoder takes bytes off the front of its buffer and adds none. When it asks for more bytes, what it
still holds is hardly more than one record of the largest size: bytes that cannot be a part of a frame any more are
dropped as they come (`Spares`). The decoder of counted records waits for a record only if it is no larger than
that (`Fits`).
-/

namespace LogIntake

/-- How many bytes a decoder holds at most when it asks for more. -/
def Framing.retained (framing : Framing) (limit : Nat) : Nat :=
  match framing with
  | .tagged => limit + 5
  | .newline => limit + 1
  | .octetCounting => max limit 10

/-- Records are no larger than the limit, and what is reported as too large is larger. -/
def Frame.Within (limit : Nat) : Frame → Prop
  | .record payload => payload.length ≤ limit
  | .malformed (.oversized size most) => most = limit ∧ limit < size
  | .malformed (.unframed _) => True

/-- What a call leaves of the buffer of `f`, and what it hands out; at most `bound` bytes are left if it asks for
more. -/
structure Framer.Spares {σ : Type} (f g : Framer σ) (bound : Nat) (handed : Except Desync (Option Frame)) : Prop where
  suffix : g.buffer <:+ f.buffer
  within : ∀ frame, handed = .ok (some frame) → frame.Within f.limit
  asks : handed = .ok none → g.buffer.length ≤ bound

namespace Framer.Spares

variable {σ : Type} {f g : Framer σ} {bound : Nat}

theorem of_frame {frame : Frame} (hsuffix : g.buffer <:+ f.buffer) (h : frame.Within f.limit) :
    f.Spares g bound (.ok (some frame)) := by
  refine ⟨hsuffix, fun _ hframe => ?_, nofun⟩
  cases hframe
  exact h

theorem of_quiet (hsuffix : g.buffer <:+ f.buffer) (h : g.buffer.length ≤ bound) : f.Spares g bound (.ok none) :=
  ⟨hsuffix, nofun, fun _ => h⟩

/-- Before a call something may be dropped. -/
theorem of_suffix {f' : Framer σ} {handed : Except Desync (Option Frame)} (h : f.Spares g bound handed)
    (hsuffix : f.buffer <:+ f'.buffer) (hlimit : f.limit = f'.limit) : f'.Spares g bound handed :=
  ⟨h.suffix.trans hsuffix, hlimit ▸ h.within, h.asks⟩

end Framer.Spares

/-! ## Tagged records -/

namespace Tagged

theorem length_drop_settled_lt {tag : Bytes} (h : tag ≠ []) (s : Bytes) :
    (s.drop (s.length - Bytes.overlap tag s)).length < tag.length := by
  have hle := Bytes.overlap_le_length tag s
  have hlt := Bytes.overlap_lt h s
  rw [List.length_drop]
  omega

theorem spares_discard {f : Framer State} {skipped : Nat} (h : f.limit < skipped) :
    f.Spares (discard f skipped).1 (f.limit + 5) (.ok (discard f skipped).2) := by
  unfold discard
  split
  · next stop _ => exact .of_frame (List.drop_suffix ..) ⟨rfl, Nat.lt_add_right stop h⟩
  · have hkept : _ < 6 := length_drop_settled_lt closeTag_ne_nil f.buffer
    refine .of_quiet (List.drop_suffix ..) ?_
    simp only
    omega

theorem spares_scan (f : Framer State) (scanned : Nat) :
    f.Spares (scan f scanned).1 (f.limit + 5) (.ok (scan f scanned).2) := by
  unfold scan
  simp only
  split
  · refine .of_frame (List.drop_suffix ..) ?_
    split
    · next hlimit => exact ⟨rfl, hlimit⟩
    · next hlimit => exact Nat.le_trans (List.length_take_le ..) (Nat.le_of_not_lt hlimit)
  · split
    · next hlimit =>
        refine Framer.Spares.of_suffix (spares_discard hlimit) ?_ rfl
        exact List.drop_suffix ..
    · next hlimit =>
        -- All but the overlap is within the limit.
        have hkept : _ < 6 := Bytes.overlap_lt closeTag_ne_nil f.buffer
        refine .of_quiet (List.suffix_refl _) ?_
        simp only
        omega

theorem spares_seek (f : Framer State) (junk : Nat) :
    f.Spares (seek f junk).1 (f.limit + 5) (.ok (seek f junk).2) := by
  have hsearched : searched f junk <:+ f.buffer := by
    unfold searched
    split
    · exact List.dropWhile_suffix _
    · exact List.suffix_refl _
  rw [seek_eq]
  split
  · next start _ =>
      have hopened := (List.drop_suffix (start + openTag.length) (searched f junk)).trans hsearched
      simp only
      split
      · exact (spares_scan _ 0).of_suffix hopened rfl
      · exact .of_frame hopened trivial
  · have hkept : _ < 5 := length_drop_settled_lt openTag_ne_nil (searched f junk)
    refine .of_quiet ((List.drop_suffix ..).trans hsearched) ?_
    simp only [Bytes.settled]
    omega

theorem spares_next {f : Framer State} (h : Sound f) : f.Spares (next f).1 (f.limit + 5) (.ok (next f).2) := by
  unfold next
  split
  · exact spares_seek ..
  · exact spares_scan ..
  · next hs =>
      rw [Sound, hs] at h
      exact spares_discard h

theorem spares_finish {f : Framer State} (h : Sound f) : f.Spares (finish f).1 0 (.ok (finish f).2) := by
  have hnext := spares_next h
  unfold finish
  split
  · next g frame hg =>
      rw [hg] at hnext
      exact .of_frame hnext.suffix (hnext.within frame rfl)
  · next g hg =>
      rw [hg] at hnext
      split
      · exact .of_quiet (List.nil_suffix) (Nat.le_refl _)
      · exact .of_frame hnext.suffix trivial
      · exact .of_quiet (List.nil_suffix) (Nat.le_refl _)
      · exact .of_quiet (List.nil_suffix) (Nat.le_refl _)

end Tagged

/-! ## Lines -/

namespace Newline

theorem spares_discard {f : Framer State} {skipped : Nat} {after : Bool} (h : f.limit < skipped - after.toNat) :
    f.Spares (discard f skipped after).1 (f.limit + 1) (.ok (discard f skipped after).2) := by
  unfold discard
  split
  · next stop _ =>
      refine .of_frame (List.drop_suffix ..) ⟨rfl, ?_⟩
      split
      · omega
      · have := Bool.toNat_le (endsWithReturn (f.buffer.take stop))
        omega
  · exact .of_quiet List.nil_suffix (Nat.zero_le _)

theorem spares_scan (f : Framer State) (checked : Nat) :
    f.Spares (scan f checked).1 (f.limit + 1) (.ok (scan f checked).2) := by
  fun_induction scan f checked with
  | case1 f checked offset hfound stop line rest hlong => exact .of_frame (List.drop_suffix ..) ⟨rfl, hlong⟩
  | case2 f checked offset hfound stop line rest hlong hblank ih => exact ih.of_suffix (List.drop_suffix ..) rfl
  | case3 f checked offset hfound stop line rest hlong hblank =>
      exact .of_frame (List.drop_suffix ..) (Nat.le_of_not_lt hlong)
  | case4 f checked hfound ret hlong => exact .of_quiet List.nil_suffix (Nat.zero_le _)
  | case5 f checked hfound ret hlong =>
      have := Bool.toNat_le ret
      refine .of_quiet (List.suffix_refl _) ?_
      simp only
      omega

theorem spares_next {f : Framer State} (h : Sound f) : f.Spares (next f).1 (f.limit + 1) (.ok (next f).2) := by
  unfold next
  split
  · exact spares_scan ..
  · next hs =>
      rw [Sound, hs] at h
      exact spares_discard h

theorem spares_finish {f : Framer State} (h : Sound f) : f.Spares (finish f).1 0 (.ok (finish f).2) := by
  have hnext := spares_next h
  unfold finish
  split
  · next g frame hg =>
      rw [hg] at hnext
      exact .of_frame hnext.suffix (hnext.within frame rfl)
  · split
    · exact .of_quiet (List.nil_suffix) (Nat.le_refl _)
    · exact .of_quiet (List.nil_suffix) (Nat.le_refl _)

end Newline

/-! ## Counted records -/

namespace OctetCounting

/-- A record that is waited for is not too large. -/
def Fits (f : Framer State) : Prop :=
  ∀ length, f.state = .body length → length ≤ f.limit

theorem length_le_of_readHeader {s : Bytes} (h : readHeader s = .ok none) : s.length ≤ maxDigits := by
  unfold readHeader at h
  split at h
  · split at h
    · cases h
    · next hshort => exact Nat.le_of_not_lt hshort
  · simp only at h
    split at h
    · cases h
    · cases h

theorem spares_body {f : Framer State} {length : Nat} (h : length ≤ f.limit) :
    f.Spares (body f length).1 (max f.limit maxDigits) (body f length).2 ∧ Fits (body f length).1 := by
  unfold body
  split
  · refine ⟨.of_quiet (List.suffix_refl _) ?_, fun length hs => ?_⟩
    · simp only
      omega
    · cases hs
      exact h
  · exact ⟨.of_frame (List.drop_suffix ..) (Nat.le_trans (List.length_take_le ..) h), nofun⟩

theorem spares_header (f : Framer State) :
    f.Spares (header f).1 (max f.limit maxDigits) (header f).2 ∧ Fits (header f).1 := by
  have hskip := List.dropWhile_suffix (l := f.buffer) Bytes.isBlank
  unfold header
  simp only
  split
  · exact ⟨⟨hskip, nofun, nofun⟩, nofun⟩
  · next hread =>
      have hshort := length_le_of_readHeader hread
      exact ⟨.of_quiet hskip (Nat.le_trans hshort (Nat.le_max_right ..)), nofun⟩
  · next length taken _ =>
      have hbody := (List.drop_suffix taken _).trans hskip
      split
      · next hlimit => exact ⟨.of_frame hbody ⟨rfl, hlimit⟩, nofun⟩
      · next hlimit =>
          obtain ⟨hspares, hfits⟩ := spares_body (Nat.le_of_not_lt hlimit)
            (f := .mk f.limit .header ((f.buffer.dropWhile Bytes.isBlank).drop taken) f.discarded)
          exact ⟨hspares.of_suffix hbody rfl, hfits⟩

theorem spares_skip (f : Framer State) (remaining : Nat) :
    f.Spares (skip f remaining).1 (max f.limit maxDigits) (skip f remaining).2 ∧ Fits (skip f remaining).1 := by
  unfold skip
  simp only
  split
  · next hshort =>
      have hnil : f.buffer.drop remaining = [] := List.drop_eq_nil_of_le (Nat.le_of_lt hshort)
      refine ⟨.of_quiet (List.drop_suffix ..) ?_, nofun⟩
      simp only [hnil, List.length_nil]
      omega
  · obtain ⟨hspares, hfits⟩ := spares_header { f with buffer := f.buffer.drop remaining }
    exact ⟨hspares.of_suffix (List.drop_suffix ..) rfl, hfits⟩

theorem spares_next {f : Framer State} (h : Fits f) :
    f.Spares (next f).1 (max f.limit maxDigits) (next f).2 ∧ Fits (next f).1 := by
  unfold next
  split
  · exact spares_header f
  · next hs => exact spares_body (h _ hs)
  · exact spares_skip ..

theorem spares_finish {f : Framer State} (h : Fits f) :
    f.Spares (finish f).1 0 (finish f).2 ∧ Fits (finish f).1 := by
  have hnext := spares_next h
  unfold finish
  split
  · split
    · exact ⟨.of_quiet List.nil_suffix (Nat.le_refl _), nofun⟩
    · exact ⟨.of_quiet List.nil_suffix (Nat.le_refl _), nofun⟩
  · next hne =>
      obtain ⟨hspares, hfits⟩ := hnext
      exact ⟨⟨hspares.suffix, hspares.within, fun hnone => (hne _ (Prod.ext rfl hnone)).elim⟩, hfits⟩

end OctetCounting

/-! ## Decoders in use -/

namespace Decoder

/-- Decoders of a framing, in the states to which use of a new one with this limit may bring it. -/
inductive Sparing (limit : Nat) : Framing → Decoder → Prop
  | tagged (f : Framer Tagged.State) : f.limit = limit → Tagged.Sound f → Sparing limit .tagged (.tagged f)
  | newline (f : Framer Newline.State) : f.limit = limit → Newline.Sound f → Sparing limit .newline (.newline f)
  | octetCounting (f : Framer OctetCounting.State) : f.limit = limit → OctetCounting.Fits f →
      Sparing limit .octetCounting (.octetCounting f)

variable {d : Decoder} {framing : Framing} {limit : Nat}

theorem sparing_start (framing : Framing) (limit : Nat) : (start framing limit).Sparing limit framing := by
  cases framing with
  | tagged => exact .tagged _ rfl trivial
  | newline => exact .newline _ rfl ⟨Nat.le_refl _, rfl⟩
  | octetCounting => exact .octetCounting _ rfl nofun

/-- What a call does to the buffer of a decoder, and what it hands out. -/
structure Spares (d e : Decoder) (bound limit : Nat) (handed : Except Desync (Option Frame)) : Prop where
  suffix : e.buffer <:+ d.buffer
  within : ∀ frame, handed = .ok (some frame) → frame.Within limit
  asks : handed = .ok none → e.buffer.length ≤ bound

theorem Sparing.next (h : d.Sparing limit framing) :
    d.next.1.Sparing limit framing ∧ d.Spares d.next.1 (framing.retained limit) limit d.next.2 := by
  cases h with
  | tagged f hlimit hsound =>
      subst hlimit
      have hnext := Tagged.handover_next hsound
      obtain ⟨hsuffix, hwithin, hasks⟩ := Tagged.spares_next hsound
      exact ⟨.tagged _ hnext.limit hnext.sound, hsuffix, hwithin, hasks⟩
  | newline f hlimit hsound =>
      subst hlimit
      have hnext := Newline.handover_next hsound
      obtain ⟨hsuffix, hwithin, hasks⟩ := Newline.spares_next hsound
      exact ⟨.newline _ hnext.limit hnext.sound, hsuffix, hwithin, hasks⟩
  | octetCounting f hlimit hfits =>
      subst hlimit
      obtain ⟨⟨hsuffix, hwithin, hasks⟩, hfits⟩ := OctetCounting.spares_next hfits
      exact ⟨.octetCounting _ (OctetCounting.handover_next f).limit hfits, hsuffix, hwithin, hasks⟩

theorem Sparing.finish (h : d.Sparing limit framing) :
    d.finish.1.Sparing limit framing ∧ d.Spares d.finish.1 0 limit d.finish.2 := by
  cases h with
  | tagged f hlimit hsound =>
      subst hlimit
      have hfinish := Tagged.closure_finish hsound
      obtain ⟨hsuffix, hwithin, hasks⟩ := Tagged.spares_finish hsound
      exact ⟨.tagged _ hfinish.limit hfinish.sound, hsuffix, hwithin, hasks⟩
  | newline f hlimit hsound =>
      subst hlimit
      have hfinish := Newline.closure_finish hsound
      obtain ⟨hsuffix, hwithin, hasks⟩ := Newline.spares_finish hsound
      exact ⟨.newline _ hfinish.limit hfinish.sound, hsuffix, hwithin, hasks⟩
  | octetCounting f hlimit hfits =>
      subst hlimit
      obtain ⟨⟨hsuffix, hwithin, hasks⟩, hfits⟩ := OctetCounting.spares_finish hfits
      exact ⟨.octetCounting _ (OctetCounting.closure_finish f).limit hfits, hsuffix, hwithin, hasks⟩

theorem Sparing.feed (h : d.Sparing limit framing) (bytes : Bytes) : (d.feed bytes).Sparing limit framing := by
  cases h with
  | tagged f hlimit hsound => exact .tagged _ hlimit (sound_feed (d := .tagged f) hsound bytes)
  | newline f hlimit hsound => exact .newline _ hlimit (sound_feed (d := .newline f) hsound bytes)
  | octetCounting f hlimit hfits => exact .octetCounting _ hlimit hfits

theorem Sparing.operate (h : d.Sparing limit framing) (op : Operation) :
    (d.operate op).1.Sparing limit framing ∧
      ∀ answer ∈ (d.operate op).2, ∀ frame, answer = .ok (some frame) → frame.Within limit := by
  cases op with
  | feed bytes => exact ⟨h.feed bytes, nofun⟩
  | next => exact ⟨h.next.1, List.forall_mem_singleton.mpr h.next.2.within⟩
  | finish => exact ⟨h.finish.1, List.forall_mem_singleton.mpr h.finish.2.within⟩

theorem sparing_use (framing : Framing) (limit : Nat) (ops : List Operation) :
    ((start framing limit).use ops).1.Sparing limit framing ∧
      ∀ answer ∈ ((start framing limit).use ops).2, ∀ frame, answer = .ok (some frame) → frame.Within limit :=
  use_induction (fun _ op h => h.operate op) (sparing_start framing limit) ops

end Decoder

end LogIntake
