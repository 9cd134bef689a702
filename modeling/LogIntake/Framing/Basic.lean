import LogIntake.Frame

/-!
# Framings

A framing says how records are delimited in a stream. The decoders of the framings share one shape,
`Framer`: a size limit, a state of their own, the bytes received and not yet consumed, and a count of the
bytes of unfinished units that ends of stream have discarded.
-/

namespace LogIntake

/-- How records are delimited. -/
inductive Framing where
  /-- `<rec>payload</rec>` -/
  | tagged
  /-- One record a line. -/
  | newline
  /-- The length in decimal digits, a space, and the record. -/
  | octetCounting
  deriving DecidableEq, Repr

namespace Framing

def all : List Framing := [.tagged, .newline, .octetCounting]

/-- The name used in settings and in metric labels. -/
def name : Framing → String
  | .tagged => "tagged"
  | .newline => "newline"
  | .octetCounting => "octet-counting"

def ofName? (name : String) : Option Framing :=
  all.find? (·.name == name)

end Framing

/-- A decoder with a state of type `σ`. -/
structure Framer (σ : Type) where
  /-- The largest payload of a record. -/
  limit : Nat
  state : σ
  /-- What has been received and not yet consumed. -/
  buffer : Bytes
  /-- How many bytes of unfinished units have been discarded at ends of stream. -/
  discarded : Nat
  deriving DecidableEq, Repr

namespace Framer

variable {σ : Type}

/-- A decoder that has received nothing yet. -/
def start (limit : Nat) (state : σ) : Framer σ :=
  { limit, state, buffer := [], discarded := 0 }

/-- Receives more bytes. -/
def feed (f : Framer σ) (bytes : Bytes) : Framer σ :=
  { f with buffer := f.buffer ++ bytes }

/-- Drops the whole buffer, counts it and `pending` bytes dropped before as discarded. -/
def discard (f : Framer σ) (pending : Nat) (state : σ) : Framer σ :=
  { f with state, buffer := [], discarded := f.discarded + (pending + f.buffer.length) }

/-- The frame that reports a record of `size` bytes as too large. -/
def oversized (f : Framer σ) (size : Nat) : Frame :=
  .malformed (.oversized size f.limit)

end Framer

end LogIntake
