import LogIntake.Framing.Decoder
import LogIntake.Proofs.Framing.Checked

/-!
# The turns of a call

A call of a decoder is a loop: a turn reads or drops a part of the buffer, and either the state that it leaves is taken
up by another turn, or the call is over. The loop that looks for an open tag stands inside of the other one, so that a
call is at the beginning of a turn of the one or of the other (`Decoder.Position`). Turns work on the buffer and on
numbers by operations that can fail.
-/

namespace LogIntake

/-- What comes of a turn of a loop. -/
inductive Turn (σ α : Type) where
  /-- Another turn. -/
  | again (s : σ)
  /-- The end of the loop. -/
  | done (a : α)

/-- A loop goes from turn to turn and comes to an end: the states in which its turns begin, and what comes out. -/
inductive Turn.Ends {σ α : Type} (turn : σ → Turn σ α) : σ → List σ → α → Prop
  | done {s : σ} {a : α} : turn s = .done a → Ends turn s [s] a
  | again {s t : σ} {states : List σ} {a : α} : turn s = .again t → Ends turn t states a → Ends turn s (s :: states) a

/-- Drops the whole buffer, counts it and `pending` bytes dropped before as discarded. -/
def Framer.drop {σ : Type} (f : Framer σ) (pending : Nat) (state : σ) : Checked (Framer σ) := do
  let tail ← Checked.add pending f.buffer.length
  return { f with state, buffer := [], discarded := ← Checked.add f.discarded tail }

/-- Where a call is at the beginning of a turn. -/
inductive Decoder.Position where
  | main (d : Decoder)
  /-- In the loop that looks for an open tag, with so many bytes of junk dropped and not yet reported. -/
  | opening (f : Framer Tagged.State) (junk : Nat)

/-- What comes of a turn of a call. -/
abbrev Decoder.Outcome := Turn Decoder.Position (Decoder × Except Desync (Option Frame))

/-! ## Tagged records -/

namespace Tagged

def answer (f : Framer State) (frame : Option Frame) : Decoder.Outcome :=
  .done (.tagged f, .ok frame)

def goOn (f : Framer State) : Decoder.Outcome :=
  .again (.main (.tagged f))

/-- Skips the blanks before a run of junk, and goes on to look for an open tag. -/
def seekTurn (f : Framer State) (junk : Nat) : Checked Decoder.Outcome := do
  let buffer ← if junk = 0 then Checked.skipWhile f.buffer Bytes.isBlank else pure f.buffer
  return .again (.opening { f with buffer } junk)

/-- Takes the open tag in front, waits for the rest of it, or drops the junk before the next one. -/
def openTurn (f : Framer State) (junk : Nat) : Checked Decoder.Outcome :=
  if openTag.isPrefixOf f.buffer then do
    let buffer ← Checked.advance f.buffer openTag.length
    let opened := { f with buffer, state := .inRecord 0 }
    return if 0 < junk then answer opened (some (.malformed (.unframed junk))) else goOn opened
  else if f.buffer.isPrefixOf openTag then
    return answer { f with state := .seeking junk } none
  else do
    let skip ←
      match ← Checked.find f.buffer openTag with
      | some start => pure start
      | none => do Checked.sub f.buffer.length (← Checked.overlap f.buffer openTag)
    let buffer ← Checked.advance f.buffer skip
    return .again (.opening { f with buffer } (← Checked.add junk skip))

def scanTurn (f : Framer State) (scanned : Nat) : Checked Decoder.Outcome := do
  let base := scanned - (closeTag.length - 1)
  let rest ← Checked.sliceFrom f.buffer base
  match ← Checked.find rest closeTag with
  | some offset =>
    let size ← Checked.add base offset
    if f.limit < size then
      let buffer ← Checked.advance f.buffer (← Checked.add size closeTag.length)
      return answer { f with buffer, state := .seeking 0 } (some (f.oversized size))
    else
      let (payload, rest) ← Checked.splitTo f.buffer size
      let buffer ← Checked.advance rest closeTag.length
      return answer { f with buffer, state := .seeking 0 } (some (.record payload))
  | none =>
    let settled ← Checked.sub f.buffer.length (← Checked.overlap f.buffer closeTag)
    if f.limit < settled then
      let buffer ← Checked.advance f.buffer settled
      return goOn { f with buffer, state := .discarding settled }
    else
      return answer { f with state := .inRecord f.buffer.length } none

def discardTurn (f : Framer State) (skipped : Nat) : Checked Decoder.Outcome := do
  match ← Checked.find f.buffer closeTag with
  | some stop =>
    let buffer ← Checked.advance f.buffer (← Checked.add stop closeTag.length)
    return answer { f with buffer, state := .seeking 0 } (some (f.oversized (← Checked.add skipped stop)))
  | none =>
    let settled ← Checked.sub f.buffer.length (← Checked.overlap f.buffer closeTag)
    let buffer ← Checked.advance f.buffer settled
    return answer { f with buffer, state := .discarding (← Checked.add skipped settled) } none

def turn (f : Framer State) : Checked Decoder.Outcome :=
  match f.state with
  | .seeking junk => seekTurn f junk
  | .inRecord scanned => scanTurn f scanned
  | .discarding skipped => discardTurn f skipped

/-- What the end of the stream makes of a decoder that asks for more bytes. -/
def close (f : Framer State) : Checked (Framer State × Option Frame) :=
  match f.state with
  | .seeking (junk + 1) => pure ({ f with state := .seeking 0 }, some (.malformed (.unframed (junk + 1))))
  | .seeking 0 | .inRecord _ => do return (← f.drop 0 (.seeking 0), none)
  | .discarding skipped => do return (← f.drop skipped (.seeking 0), none)

end Tagged

/-! ## Lines -/

namespace Newline

def answer (f : Framer State) (frame : Option Frame) : Decoder.Outcome :=
  .done (.newline f, .ok frame)

/-- Takes a line off the front, with its line feed, and looks what it is. -/
def scanTurn (f : Framer State) (checked : Nat) : Checked Decoder.Outcome := do
  let rest ← Checked.sliceFrom f.buffer checked
  match rest.findIdx? isLineFeed with
  | some offset =>
    let stop ← Checked.add checked offset
    let (line, buffer) ← Checked.splitTo f.buffer (← Checked.add stop 1)
    let line := trimReturn line.dropLast
    let rest := { f with buffer, state := .scanning 0 }
    if f.limit < line.length then
      return answer rest (some (f.oversized line.length))
    else if line.all Bytes.isBlank then
      return .again (.main (.newline rest))
    else
      return answer rest (some (.record line))
  | none =>
    let ret := endsWithReturn f.buffer
    if f.limit < (← Checked.sub f.buffer.length ret.toNat) then
      return answer { f with buffer := [], state := .discarding f.buffer.length ret } none
    else
      return answer { f with state := .scanning f.buffer.length } none

def discardTurn (f : Framer State) (skipped : Nat) (afterReturn : Bool) : Checked Decoder.Outcome := do
  match f.buffer.findIdx? isLineFeed with
  | some stop =>
    let ret ←
      if stop = 0 then pure afterReturn
      else do pure (isReturn (← Checked.index f.buffer (← Checked.sub stop 1)))
    let buffer ← Checked.advance f.buffer (← Checked.add stop 1)
    let size ← Checked.sub (← Checked.add skipped stop) ret.toNat
    return answer { f with buffer, state := .scanning 0 } (some (f.oversized size))
  | none =>
    match f.buffer.getLast? with
    | some last =>
      let skipped ← Checked.add skipped f.buffer.length
      return answer { f with buffer := [], state := .discarding skipped (isReturn last) } none
    | none => return answer f none

def turn (f : Framer State) : Checked Decoder.Outcome :=
  match f.state with
  | .scanning checked => scanTurn f checked
  | .discarding skipped afterReturn => discardTurn f skipped afterReturn

/-- What the end of the stream makes of a decoder that asks for more bytes. -/
def close (f : Framer State) : Checked (Framer State) :=
  match f.state with
  | .scanning _ => f.drop 0 (.scanning 0)
  | .discarding skipped _ => f.drop skipped (.scanning 0)

end Newline

/-! ## Counted records -/

namespace OctetCounting

def answer (f : Framer State) (given : Except Desync (Option Frame)) : Decoder.Outcome :=
  .done (.octetCounting f, given)

def goOn (f : Framer State) : Decoder.Outcome :=
  .again (.main (.octetCounting f))

/-- Whether bytes write no length: there are none, the first is a zero, or there is some that is no digit. -/
def writesNone (digits : Bytes) : Checked Bool :=
  if digits.isEmpty then pure true
  else do return (← Checked.index digits 0) == 48 || !digits.all Bytes.isDigit

/-- Reads a length and the space after it, and takes them off the front. -/
def takeHeader (buffer : Bytes) : Checked (Except Desync (Option (Nat × Bytes))) := do
  match (buffer.take (maxDigits + 1)).findIdx? isSpace with
  | none =>
    if maxDigits < buffer.length then return .error .headerTooLong
    else if buffer.all Bytes.isDigit then return .ok none
    else return .error .headerNotNumeric
  | some space =>
    let digits ← Checked.sliceTo buffer space
    if ← writesNone digits then return .error (.invalidHeader digits)
    else
      let rest ← Checked.advance buffer (← Checked.add space 1)
      return .ok (some (Bytes.decimal digits, rest))

theorem value_writesNone (digits : Bytes) :
    (writesNone digits).value = (digits.isEmpty || digits.head? == some 48 || !digits.all Bytes.isDigit) := by
  cases digits <;> rfl

theorem value_takeHeader (buffer : Bytes) :
    (takeHeader buffer).value = (readHeader buffer).map (Option.map fun r => (r.1, buffer.drop r.2)) := by
  cases hspace : (buffer.take (maxDigits + 1)).findIdx? isSpace with
  | none =>
      by_cases hlong : maxDigits < buffer.length
      · simp [takeHeader, readHeader, hspace, hlong, Except.map]
      · cases hdigits : buffer.all Bytes.isDigit <;>
          simp [takeHeader, readHeader, hspace, hlong, hdigits, Except.map, -List.all_eq_true]
  | some space =>
      have hnone := value_writesNone (buffer.take space)
      unfold takeHeader readHeader
      simp only [hspace, ← hnone]
      cases hvalue : (writesNone (buffer.take space)).value <;> simp [hvalue, Except.map]

def headerTurn (f : Framer State) : Checked Decoder.Outcome := do
  let buffer ← Checked.skipWhile f.buffer Bytes.isBlank
  let g := { f with buffer, state := .header }
  if buffer.isEmpty then return answer g (.ok none)
  else
    match ← takeHeader buffer with
    | .error desync => return answer g (.error desync)
    | .ok none => return answer g (.ok none)
    | .ok (some (length, rest)) =>
      if f.limit < length then
        return answer { f with buffer := rest, state := .skip length } (.ok (some (f.oversized length)))
      else
        return goOn { f with buffer := rest, state := .body length }

theorem value_headerTurn (f : Framer State) :
    (headerTurn f).value =
      let g := { f with buffer := f.buffer.dropWhile Bytes.isBlank, state := .header }
      match readHeader g.buffer with
      | .error desync => answer g (.error desync)
      | .ok none => answer g (.ok none)
      | .ok (some (length, taken)) =>
        let rest := g.buffer.drop taken
        if f.limit < length then
          answer { f with buffer := rest, state := .skip length } (.ok (some (f.oversized length)))
        else goOn { f with buffer := rest, state := .body length } := by
  simp only [headerTurn, Checked.value_bind, Checked.value_skipWhile]
  generalize f.buffer.dropWhile Bytes.isBlank = buffer
  have hvalue := value_takeHeader buffer
  cases hempty : buffer.isEmpty with
  | true =>
      obtain rfl := List.isEmpty_iff.mp hempty
      rfl
  | false =>
      cases hread : readHeader buffer with
      | error desync =>
          rw [hread] at hvalue
          simp [hvalue, Except.map]
      | ok read =>
          rw [hread] at hvalue
          cases read with
          | none => simp [hvalue, Except.map]
          | some read => simp [hvalue, Except.map]

/-- Takes a record, or makes room for what is missing of it. -/
def bodyTurn (f : Framer State) (length : Nat) : Checked Decoder.Outcome := do
  if f.buffer.length < length then
    let _room ← Checked.sub length f.buffer.length
    return answer { f with state := .body length } (.ok none)
  else
    let (payload, buffer) ← Checked.splitTo f.buffer length
    return answer { f with buffer, state := .header } (.ok (some (.record payload)))

def skipTurn (f : Framer State) (remaining : Nat) : Checked Decoder.Outcome := do
  let n := min remaining f.buffer.length
  let buffer ← Checked.advance f.buffer n
  if n < remaining then
    return answer { f with buffer, state := .skip (← Checked.sub remaining n) } (.ok none)
  else
    return goOn { f with buffer, state := .header }

def turn (f : Framer State) : Checked Decoder.Outcome :=
  match f.state with
  | .header => headerTurn f
  | .body length => bodyTurn f length
  | .skip remaining => skipTurn f remaining

/-- What the end of the stream makes of a decoder that asks for more bytes. -/
def close (f : Framer State) : Checked (Framer State) :=
  match f.state with
  | .skip _ => pure { f with buffer := [], state := .header }
  | _ => f.drop 0 .header

end OctetCounting

/-! ## Decoders -/

namespace Decoder

def Position.turn : Position → Checked Outcome
  | .main (.tagged f) => Tagged.turn f
  | .main (.newline f) => Newline.turn f
  | .main (.octetCounting f) => OctetCounting.turn f
  | .opening f junk => Tagged.openTurn f junk

/-- What the end of the stream makes of a decoder that asks for more bytes. -/
def close : Decoder → Checked (Decoder × Except Desync (Option Frame))
  | .tagged f => do
    let (g, frame) ← Tagged.close f
    return (.tagged g, .ok frame)
  | .newline f => do return (.newline (← Newline.close f), .ok none)
  | .octetCounting f => do return (.octetCounting (← OctetCounting.close f), .ok none)

/-- A turn of a call; when the stream has ended, a call does not ask for more bytes. -/
def callTurn (ended : Bool) (p : Position) : Checked Outcome := do
  match ← p.turn with
  | .done (d, .ok none) => if ended then return .done (← d.close) else return .done (d, .ok none)
  | outcome => return outcome

/-- A call goes through its turns, from a position on. -/
def Runs (ended : Bool) : Position → List Position → Decoder × Except Desync (Option Frame) → Prop :=
  Turn.Ends fun p => (callTurn ended p).value

/-- What a call answers. -/
def call (ended : Bool) (d : Decoder) : Decoder × Except Desync (Option Frame) :=
  if ended then d.finish else d.next

end Decoder

end LogIntake
