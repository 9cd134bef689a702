import LogIntake.Framing.Basic

/-!
# Tagged framing

A record stands between `<rec>` and `</rec>`. Blanks between records are skipped. Any other run of bytes
outside of a record is reported as one malformed unit when the next open tag or the end of the stream
comes. A record longer than the limit is dropped up to its close tag and reported with its whole size.

The end of the buffer may be the beginning of a tag, so the bytes that overlap with a tag are kept until
more bytes decide.
-/

namespace LogIntake.Tagged

/-- The bytes of `<rec>`. -/
def openTag : Bytes := [60, 114, 101, 99, 62]

/-- The bytes of `</rec>`. -/
def closeTag : Bytes := [60, 47, 114, 101, 99, 62]

inductive State where
  /-- Looking for an open tag; `junk` bytes outside of records are dropped and not yet reported. -/
  | seeking (junk : Nat)
  /-- Inside a record; no close tag begins and ends in the first `scanned` bytes. -/
  | inRecord (scanned : Nat)
  /-- Inside a record that is too large; `skipped` bytes of it are dropped. -/
  | discarding (skipped : Nat)
  deriving DecidableEq, Repr

/-- Drops a record that is too large up to its close tag. -/
def discard (f : Framer State) (skipped : Nat) : Framer State × Option Frame :=
  match Bytes.indexOf? closeTag f.buffer with
  | some stop =>
    ({ f with buffer := f.buffer.drop (stop + closeTag.length), state := .seeking 0 },
      some (f.oversized (skipped + stop)))
  | none =>
    let settled := f.buffer.length - Bytes.overlap closeTag f.buffer
    ({ f with buffer := f.buffer.drop settled, state := .discarding (skipped + settled) }, none)

/-- Looks for the close tag of a record from `scanned` on; it may have begun a little earlier. -/
def scan (f : Framer State) (scanned : Nat) : Framer State × Option Frame :=
  let base := scanned - (closeTag.length - 1)
  match Bytes.indexOf? closeTag (f.buffer.drop base) with
  | some offset =>
    let size := base + offset
    ({ f with buffer := f.buffer.drop (size + closeTag.length), state := .seeking 0 },
      some (if f.limit < size then f.oversized size else .record (f.buffer.take size)))
  | none =>
    let settled := f.buffer.length - Bytes.overlap closeTag f.buffer
    if f.limit < settled then
      discard { f with buffer := f.buffer.drop settled } settled
    else
      ({ f with state := .inRecord f.buffer.length }, none)

/-- Looks for the next open tag; a run of junk that began before is reported when the tag is found. -/
def seek (f : Framer State) (junk : Nat) : Framer State × Option Frame :=
  let buffer := if junk = 0 then f.buffer.dropWhile Bytes.isBlank else f.buffer
  match Bytes.indexOf? openTag buffer with
  | some start =>
    let opened := { f with buffer := buffer.drop (start + openTag.length), state := .inRecord 0 }
    if junk + start = 0 then scan opened 0 else (opened, some (.malformed (.unframed (junk + start))))
  | none =>
    let settled := buffer.length - Bytes.overlap openTag buffer
    ({ f with buffer := buffer.drop settled, state := .seeking (junk + settled) }, none)

/-- The next frame of the bytes received so far; `none` asks for more bytes. -/
def next (f : Framer State) : Framer State × Option Frame :=
  match f.state with
  | .seeking junk => seek f junk
  | .inRecord scanned => scan f scanned
  | .discarding skipped => discard f skipped

/-- The next frame when the stream has ended; `none` says that nothing is left. Junk is reported first,
what remains is discarded. -/
def finish (f : Framer State) : Framer State × Option Frame :=
  match next f with
  | (g, some frame) => (g, some frame)
  | (g, none) =>
    match g.state with
    | .seeking 0 => (g.discard 0 (.seeking 0), none)
    | .seeking (junk + 1) => ({ g with state := .seeking 0 }, some (.malformed (.unframed (junk + 1))))
    | .inRecord _ => (g.discard 0 (.seeking 0), none)
    | .discarding skipped => (g.discard skipped (.seeking 0), none)

/-! ## Progress -/

/-- Twice the bytes left, and one more while junk waits to be reported. -/
def weight (f : Framer State) : Nat :=
  2 * f.buffer.length + (match f.state with | .seeking (_ + 1) => 1 | _ => 0)

theorem weight_discard (f : Framer State) (skipped : Nat) :
    weight (discard f skipped).1 ≤ 2 * f.buffer.length ∧
      ((discard f skipped).2.isSome → weight (discard f skipped).1 < 2 * f.buffer.length) := by
  unfold discard
  split
  · next stop h =>
      have := Bytes.length_pos_of_indexOf? h
      simp only [weight, List.length_drop, closeTag, List.length_cons, List.length_nil]
      omega
  · simp only [weight, List.length_drop]
    exact ⟨by omega, fun h => by simp at h⟩

theorem weight_scan (f : Framer State) (scanned : Nat) :
    weight (scan f scanned).1 ≤ 2 * f.buffer.length ∧
      ((scan f scanned).2.isSome → weight (scan f scanned).1 < 2 * f.buffer.length) := by
  unfold scan
  simp only
  split
  · next offset h =>
      have := Bytes.length_pos_of_indexOf? h
      simp only [List.length_drop] at this
      simp only [weight, List.length_drop, closeTag, List.length_cons, List.length_nil]
      omega
  · split
    · have := weight_discard { f with buffer := f.buffer.drop (f.buffer.length - Bytes.overlap closeTag f.buffer) }
        (f.buffer.length - Bytes.overlap closeTag f.buffer)
      simp only [List.length_drop] at this
      exact ⟨by omega, fun h => by have := this.2 h; omega⟩
    · simp [weight]

theorem weight_seek (f : Framer State) (junk : Nat) :
    weight (seek f junk).1 ≤ 2 * f.buffer.length + min junk 1 ∧
      ((seek f junk).2.isSome → weight (seek f junk).1 < 2 * f.buffer.length + min junk 1) := by
  have hskip : (if junk = 0 then f.buffer.dropWhile Bytes.isBlank else f.buffer).length ≤ f.buffer.length := by
    split
    · exact (List.dropWhile_sublist _).length_le
    · exact Nat.le_refl _
  unfold seek
  simp only
  generalize (if junk = 0 then f.buffer.dropWhile Bytes.isBlank else f.buffer) = buffer at hskip
  split
  · next start h =>
      have hpos := Bytes.length_pos_of_indexOf? h
      split
      · have hscan := weight_scan { f with buffer := buffer.drop (start + openTag.length), state := .inRecord 0 } 0
        have hdrop : (buffer.drop (start + openTag.length)).length < f.buffer.length := by
          simp only [List.length_drop, openTag, List.length_cons, List.length_nil]
          omega
        dsimp only at hscan
        exact ⟨by omega, fun h => by have := hscan.2 h; omega⟩
      · simp only [weight, List.length_drop, openTag, List.length_cons, List.length_nil]
        omega
  · simp only [weight, List.length_drop, Option.isSome_none]
    have hle := Bytes.overlap_le_length openTag buffer
    split
    · next j heq =>
        injection heq with heq
        exact ⟨by omega, fun h => by simp at h⟩
    · exact ⟨by omega, fun h => by simp at h⟩

/-- A call of `next` adds no weight, and a frame takes some away. -/
theorem weight_next (f : Framer State) :
    weight (next f).1 ≤ weight f ∧ ((next f).2.isSome → weight (next f).1 < weight f) := by
  unfold next
  split
  · next junk h =>
      have := weight_seek f junk
      have hw : weight f = 2 * f.buffer.length + min junk 1 := by
        cases junk <;> simp [weight, h]
      rw [hw]
      exact this
  · next scanned h =>
      have hw : weight f = 2 * f.buffer.length := by simp [weight, h]
      rw [hw]
      exact weight_scan f scanned
  · next skipped h =>
      have hw : weight f = 2 * f.buffer.length := by simp [weight, h]
      rw [hw]
      exact weight_discard f skipped

/-- A frame at the end of the stream takes weight away, too. -/
theorem weight_finish {f : Framer State} (h : (finish f).2.isSome) : weight (finish f).1 < weight f := by
  have hn := weight_next f
  unfold finish at h ⊢
  split at h
  · next g frame hg =>
      simp only [hg] at hn ⊢
      exact hn.2 rfl
  · next g hg =>
      simp only [hg] at hn ⊢
      split at h
      · simp at h
      · next junk hs =>
          simp only [weight, hs] at hn ⊢
          omega
      · simp at h
      · simp at h

end LogIntake.Tagged
