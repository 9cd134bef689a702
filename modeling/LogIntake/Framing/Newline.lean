import LogIntake.Framing.Basic

/-!
# Newline framing

A record is a line. A carriage return before the line feed belongs to the line end. Blank lines are
skipped. A line longer than the limit is dropped up to its line feed and reported with its whole size,
the line end left out. A last line without a line feed is never a record.
-/

namespace LogIntake.Newline

def isLineFeed (b : UInt8) : Bool := b == 10

def isReturn (b : UInt8) : Bool := b == 13

inductive State where
  /-- Looking for a line feed; there is none in the first `checked` bytes. -/
  | scanning (checked : Nat)
  /-- Inside a line that is too long; `skipped` bytes of it are dropped, and `afterReturn` tells whether
  the last of them was a carriage return. -/
  | discarding (skipped : Nat) (afterReturn : Bool)
  deriving DecidableEq, Repr

/-- Whether the last byte is a carriage return. -/
def endsWithReturn (line : Bytes) : Bool :=
  line.getLast?.any isReturn

/-- A line without one carriage return at its end. -/
def trimReturn (line : Bytes) : Bytes :=
  if endsWithReturn line then line.dropLast else line

theorem length_pos_of_findIdx? {line : Bytes} {n i : Nat} (h : (line.drop n).findIdx? isLineFeed = some i) :
    0 < line.length - n := by
  rw [← List.length_drop]
  cases hb : line.drop n with
  | nil => simp [hb] at h
  | cons b more => simp

/-- Drops a line that is too long up to its line feed. -/
def discard (f : Framer State) (skipped : Nat) (afterReturn : Bool) : Framer State × Option Frame :=
  match f.buffer.findIdx? isLineFeed with
  | some stop =>
    let line := f.buffer.take stop
    let ret := if stop = 0 then afterReturn else endsWithReturn line
    ({ f with buffer := f.buffer.drop (stop + 1), state := .scanning 0 },
      some (f.oversized (skipped + stop - ret.toNat)))
  | none =>
    let after := if f.buffer = [] then afterReturn else endsWithReturn f.buffer
    ({ f with buffer := [], state := .discarding (skipped + f.buffer.length) after }, none)

/-- Reads lines until one is a frame, where no line feed stands in the first `checked` bytes. -/
def scan (f : Framer State) (checked : Nat) : Framer State × Option Frame :=
  match _found : (f.buffer.drop checked).findIdx? isLineFeed with
  | some offset =>
    let stop := checked + offset
    let line := trimReturn (f.buffer.take stop)
    let rest := { f with buffer := f.buffer.drop (stop + 1), state := .scanning 0 }
    if f.limit < line.length then
      (rest, some (f.oversized line.length))
    else if line.all Bytes.isBlank then
      scan rest 0
    else
      (rest, some (.record line))
  | none =>
    let ret := endsWithReturn f.buffer
    if f.limit < f.buffer.length - ret.toNat then
      ({ f with buffer := [], state := .discarding f.buffer.length ret }, none)
    else
      ({ f with state := .scanning f.buffer.length }, none)
  termination_by f.buffer.length
  decreasing_by
    have := length_pos_of_findIdx? _found
    simp only [List.length_drop]
    omega

/-- The next frame of the bytes received so far; `none` asks for more bytes. -/
def next (f : Framer State) : Framer State × Option Frame :=
  match f.state with
  | .scanning checked => scan f checked
  | .discarding skipped afterReturn => discard f skipped afterReturn

/-- The next frame when the stream has ended; `none` says that nothing is left, and the unfinished line
is discarded. -/
def finish (f : Framer State) : Framer State × Option Frame :=
  match next f with
  | (g, some frame) => (g, some frame)
  | (g, none) =>
    match g.state with
    | .scanning _ => (g.discard 0 (.scanning 0), none)
    | .discarding skipped _ => (g.discard skipped (.scanning 0), none)

/-! ## Progress -/

theorem length_scan {f : Framer State} {checked : Nat} (h : (scan f checked).2.isSome) :
    (scan f checked).1.buffer.length < f.buffer.length := by
  fun_induction scan f checked with
  | case1 f checked offset hfound stop line rest hlong =>
      have := length_pos_of_findIdx? hfound
      simp only [rest, List.length_drop] at *
      omega
  | case2 f checked offset hfound stop line rest hlong hblank ih =>
      have hless := ih h
      have hrest : rest.buffer.length ≤ f.buffer.length := by simp [rest]
      omega
  | case3 f checked offset hfound stop line rest hlong hblank =>
      have := length_pos_of_findIdx? hfound
      simp only [rest, List.length_drop] at *
      omega
  | case4 => simp at h
  | case5 => simp at h

theorem length_discard {f : Framer State} {skipped : Nat} {after : Bool} (h : (discard f skipped after).2.isSome) :
    (discard f skipped after).1.buffer.length < f.buffer.length := by
  unfold discard at h ⊢
  split at h
  · next stop hfound =>
      have := length_pos_of_findIdx? (n := 0) hfound
      simp only [List.length_drop]
      omega
  · simp at h

/-- A frame takes bytes off the buffer. -/
theorem length_next {f : Framer State} (h : (next f).2.isSome) :
    (next f).1.buffer.length < f.buffer.length := by
  unfold next at h ⊢
  split at h
  · exact length_scan h
  · exact length_discard h

/-- A frame at the end of the stream takes bytes off the buffer, too. -/
theorem length_finish {f : Framer State} (h : (finish f).2.isSome) :
    (finish f).1.buffer.length < f.buffer.length := by
  have hn := @length_next f
  unfold finish at h ⊢
  split at h
  · next g frame hg =>
      simp only [hg] at hn ⊢
      exact hn rfl
  · next g hg =>
      split at h <;> simp at h

end LogIntake.Newline
