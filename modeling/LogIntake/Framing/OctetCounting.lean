import LogIntake.Framing.Basic

/-!
# Octet counting

A record follows its length, written with one to ten decimal digits of which the first is not zero, and a
space. Blanks before a length are skipped. A record longer than the limit is reported as soon as its
length is known, and then exactly that many bytes are skipped. Nothing tells where the next record
begins once a length cannot be read: the stream is out of synchronisation.
-/

namespace LogIntake.OctetCounting

/-- The greatest number of digits of a length. -/
def maxDigits : Nat := 10

def isSpace (b : UInt8) : Bool := b == 32

inductive State where
  /-- Before or inside a length. -/
  | header
  /-- Inside a record of the given length. -/
  | body (length : Nat)
  /-- Inside a record that is too large, of which so many bytes are still to be skipped. -/
  | skip (remaining : Nat)
  deriving DecidableEq, Repr

/-- Reads a length and the space after it from the front: the number, and how many bytes it took. The
answer is `none` while the space has not come. -/
def readHeader (buffer : Bytes) : Except Desync (Option (Nat × Nat)) :=
  match (buffer.take (maxDigits + 1)).findIdx? isSpace with
  | none =>
    if maxDigits < buffer.length then .error .headerTooLong
    else if buffer.all Bytes.isDigit then .ok none
    else .error .headerNotNumeric
  | some space =>
    let digits := buffer.take space
    if digits.isEmpty || digits.head? == some 48 || !digits.all Bytes.isDigit then
      .error (.invalidHeader digits)
    else
      .ok (some (Bytes.decimal digits, space + 1))

/-- Waits until the whole record has come. -/
def body (f : Framer State) (length : Nat) : Framer State × Except Desync (Option Frame) :=
  if f.buffer.length < length then
    ({ f with state := .body length }, .ok none)
  else
    ({ f with buffer := f.buffer.drop length, state := .header }, .ok (some (.record (f.buffer.take length))))

/-- Reads a length, and then its record. -/
def header (f : Framer State) : Framer State × Except Desync (Option Frame) :=
  let g := { f with buffer := f.buffer.dropWhile Bytes.isBlank, state := .header }
  match readHeader g.buffer with
  | .error desync => (g, .error desync)
  | .ok none => (g, .ok none)
  | .ok (some (length, taken)) =>
    let h := { g with buffer := g.buffer.drop taken }
    if f.limit < length then
      ({ h with state := .skip length }, .ok (some (f.oversized length)))
    else
      body h length

/-- Skips a record that is too large, and goes on with the next length. -/
def skip (f : Framer State) (remaining : Nat) : Framer State × Except Desync (Option Frame) :=
  let g := { f with buffer := f.buffer.drop remaining }
  if f.buffer.length < remaining then
    ({ g with state := .skip (remaining - f.buffer.length) }, .ok none)
  else
    header g

/-- The next frame of the bytes received so far; `none` asks for more bytes. -/
def next (f : Framer State) : Framer State × Except Desync (Option Frame) :=
  match f.state with
  | .header => header f
  | .body length => body f length
  | .skip remaining => skip f remaining

/-- The next frame when the stream has ended; `none` says that nothing is left. An unfinished length or
record is discarded and counted, a record that was being skipped has been reported before. -/
def finish (f : Framer State) : Framer State × Except Desync (Option Frame) :=
  match next f with
  | (g, .ok none) =>
    match g.state with
    | .skip _ => ({ g with buffer := [], state := .header }, .ok none)
    | _ => (g.discard 0 .header, .ok none)
  | other => other

/-- How many bytes of a record are still to come. -/
def wanted (f : Framer State) : Nat :=
  match f.state with
  | .body length => length - f.buffer.length
  | _ => 0

/-! ## Progress -/

/-- Whether a call handed out a frame. -/
def yields : Except Desync (Option Frame) → Bool
  | .ok (some _) => true
  | _ => false

/-- Twice the bytes left, and one more inside of a record. -/
def weight (f : Framer State) : Nat :=
  2 * f.buffer.length + (match f.state with | .body _ => 1 | _ => 0)

theorem taken_pos {buffer : Bytes} {length taken : Nat} (h : readHeader buffer = .ok (some (length, taken))) :
    0 < taken ∧ 0 < buffer.length := by
  unfold readHeader at h
  split at h
  · split at h
    · simp at h
    · split at h <;> simp at h
  · next space hspace =>
      simp only at h
      split at h
      · simp at h
      · cases buffer with
        | nil => simp at hspace
        | cons b rest =>
            simp only [Except.ok.injEq, Option.some.injEq, Prod.mk.injEq] at h
            simp only [List.length_cons]
            omega

theorem weight_body {f : Framer State} {length : Nat} (h : yields (body f length).2) :
    weight (body f length).1 ≤ 2 * f.buffer.length := by
  unfold body at h ⊢
  split at h
  · simp [yields] at h
  · next hlen =>
      simp only [hlen, if_false, weight, List.length_drop]
      omega

theorem weight_header {f : Framer State} (h : yields (header f).2) :
    weight (header f).1 < 2 * f.buffer.length := by
  have hskip : (f.buffer.dropWhile Bytes.isBlank).length ≤ f.buffer.length :=
    (List.dropWhile_sublist _).length_le
  unfold header at h ⊢
  simp only at h ⊢
  generalize f.buffer.dropWhile Bytes.isBlank = buffer at h hskip ⊢
  split at h
  · simp [yields] at h
  · simp [yields] at h
  · next length taken hread =>
      have hpos := taken_pos hread
      have hdrop : (buffer.drop taken).length < f.buffer.length := by
        simp only [List.length_drop]
        omega
      split at h
      · next hlimit =>
          simp only [hlimit, if_true, weight]
          omega
      · next hlimit =>
          have hbody := weight_body h
          simp only [hlimit, if_false]
          dsimp only at hbody
          omega

theorem weight_skip {f : Framer State} {remaining : Nat} (h : yields (skip f remaining).2) :
    weight (skip f remaining).1 < 2 * f.buffer.length := by
  unfold skip at h ⊢
  simp only at h ⊢
  split at h
  · simp [yields] at h
  · next hlen =>
      have hheader := weight_header h
      simp only [hlen, if_false]
      simp only [List.length_drop] at hheader
      omega

/-- A frame takes weight away. -/
theorem weight_next {f : Framer State} (h : yields (next f).2) : weight (next f).1 < weight f := by
  unfold next at h ⊢
  split at h
  · next hs => simpa [weight, hs] using weight_header h
  · next length hs =>
      have hw : weight f = 2 * f.buffer.length + 1 := by simp [weight, hs]
      rw [hw]
      exact Nat.lt_succ_of_le (weight_body h)
  · next remaining hs => simpa [weight, hs] using weight_skip h

/-- A frame at the end of the stream takes weight away, too. -/
theorem weight_finish {f : Framer State} (h : yields (finish f).2) : weight (finish f).1 < weight f := by
  have hn := @weight_next f
  unfold finish at h ⊢
  split at h
  · split at h <;> simp [yields] at h
  · exact hn h

end LogIntake.OctetCounting
