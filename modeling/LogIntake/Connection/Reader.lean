import LogIntake.Connection.Source
import LogIntake.Connection.Storage
import LogIntake.Error
import LogIntake.Framing.Decoder

/-!
# Reading frames from a connection

A reader takes frames out of its decoder as long as there are any, then reads more bytes, as many at a time
as its storage has room for, and when the stream has ended takes out what is left.
-/

namespace LogIntake

/-- What a reader does next. -/
inductive Reader.Stage where
  /-- It reads bytes. -/
  | filling
  /-- It takes frames out of the decoder. -/
  | framing
  /-- The stream has ended, and it takes out what is left. -/
  | ending
  deriving DecidableEq, Repr

structure Reader where
  source : Source
  decoder : Decoder
  stage : Reader.Stage := .filling
  storage : Storage
  /-- How many records have been taken out. -/
  records : Nat := 0
  deriving DecidableEq, Repr

/-- What comes next from a connection. -/
inductive Arrival where
  | frame (frame : Frame)
  | ended
  | failed (cause : FrameError)
  /-- Nothing until more bytes come. -/
  | blocked
  /-- Nothing in this turn: the allowance is used up. -/
  | spent
  deriving DecidableEq, Repr

namespace Reader

/-- A reader after a step, what it found, whether the signal to shut down was given meanwhile, and the
allowance that is left. -/
structure Result where
  reader : Reader
  arrival : Arrival
  signalled : Bool
  allowance : Nat
  deriving DecidableEq, Repr

/-- The reader after its decoder has handed something out: what is consumed is free, and the payload of a
record goes on to lie in the storage. -/
def settle (r : Reader) (decoder : Decoder) (stage : Stage) (handed : Except Desync (Option Frame)) : Reader :=
  let storage := r.storage.consume (r.decoder.buffer.length - decoder.buffer.length)
  match handed with
  | .ok (some (.record _)) => { r with decoder, stage, storage := storage.lend r.records, records := r.records + 1 }
  | _ => { r with decoder, stage, storage }

/-- Makes room for so many bytes, where `newest` is the number of the newest record still in use. -/
def reserve (r : Reader) (newest : Option Nat) (n : Nat) : Reader :=
  { r with storage := r.storage.reserve newest r.decoder.buffer.length n }

/-- Takes out what is left after the end of the stream. -/
def finish (r : Reader) (signalled : Bool) (allowance : Nat) : Result :=
  match r.decoder.finish with
  | (d, .ok (some frame)) => ⟨r.settle d .ending (.ok (some frame)), .frame frame, signalled, allowance⟩
  | (d, .ok none) => ⟨r.settle d .filling (.ok none), .ended, signalled, allowance⟩
  | (d, .error desync) =>
    ⟨r.settle d .filling (.error desync), .failed (.desync desync.reason), signalled, allowance⟩

/-- Reads until there is a frame, or no more comes. The decoder may know how many bytes it needs. -/
def fill (now : Instant) (newest : Option Nat) (r : Reader) (signalled : Bool) (allowance : Nat) : Result :=
  let ready := (r.reserve newest r.decoder.wanted).reserve newest 1
  let reading := r.source.read now (ready.storage.room r.decoder.buffer.length) allowance
  let signalled := signalled || reading.signalled
  let r := { ready with source := reading.rest }
  match _h : reading.result with
  | .bytes bytes =>
    let fed := { r with decoder := r.decoder.feed bytes }
    match fed.decoder.next with
    | (d, .ok (some frame)) =>
      ⟨fed.settle d .framing (.ok (some frame)), .frame frame, signalled, reading.allowance⟩
    | (d, .ok none) => fill now newest (fed.settle d .filling (.ok none)) signalled reading.allowance
    | (d, .error desync) =>
      ⟨fed.settle d .filling (.error desync), .failed (.desync desync.reason), signalled, reading.allowance⟩
  | .ended => finish r signalled reading.allowance
  | .failed cause => ⟨r, .failed (.io cause), signalled, reading.allowance⟩
  | .blocked => ⟨r, .blocked, signalled, reading.allowance⟩
  | .spent => ⟨r, .spent, signalled, reading.allowance⟩
  termination_by r.source.weight
  decreasing_by exact Source.weight_read _h

/-- The next arrival on the connection, where `newest` is the number of the newest record still in use. -/
def next (now : Instant) (newest : Option Nat) (r : Reader) (allowance : Nat) : Result :=
  match r.stage with
  | .filling => fill now newest r false allowance
  | .ending => finish r false allowance
  | .framing =>
    match r.decoder.next with
    | (d, .ok (some frame)) => ⟨r.settle d .framing (.ok (some frame)), .frame frame, false, allowance⟩
    | (d, .ok none) => fill now newest (r.settle d .filling (.ok none)) false allowance
    | (d, .error desync) =>
      ⟨r.settle d .filling (.error desync), .failed (.desync desync.reason), false, allowance⟩

end Reader

end LogIntake
