import LogIntake.Framing.Tagged
import LogIntake.Framing.Newline
import LogIntake.Framing.OctetCounting

/-!
# Decoders

The decoder of a connection is the one of its framing. `next` and `finish` hand out one frame, `drain` and
`drainEnd` all frames there are. They end because each frame lowers the weight of the decoder.
-/

namespace LogIntake

inductive Decoder where
  | tagged (framer : Framer Tagged.State)
  | newline (framer : Framer Newline.State)
  | octetCounting (framer : Framer OctetCounting.State)
  deriving DecidableEq, Repr

namespace Decoder

/-- The decoder of a framing before the first byte. -/
def start (framing : Framing) (limit : Nat) : Decoder :=
  match framing with
  | .tagged => .tagged (.start limit (.seeking 0))
  | .newline => .newline (.start limit (.scanning 0))
  | .octetCounting => .octetCounting (.start limit .header)

def framing : Decoder → Framing
  | .tagged _ => .tagged
  | .newline _ => .newline
  | .octetCounting _ => .octetCounting

/-- What has been received and not yet consumed. -/
def buffer : Decoder → Bytes
  | .tagged f => f.buffer
  | .newline f => f.buffer
  | .octetCounting f => f.buffer

/-- How many bytes of unfinished units ends of stream have discarded. -/
def discarded : Decoder → Nat
  | .tagged f => f.discarded
  | .newline f => f.discarded
  | .octetCounting f => f.discarded

/-- Receives more bytes. -/
def feed (d : Decoder) (bytes : Bytes) : Decoder :=
  match d with
  | .tagged f => .tagged (f.feed bytes)
  | .newline f => .newline (f.feed bytes)
  | .octetCounting f => .octetCounting (f.feed bytes)

/-- The next frame of the bytes received so far; `none` asks for more bytes. -/
def next : Decoder → Decoder × Except Desync (Option Frame)
  | .tagged f => let (g, frame) := Tagged.next f; (.tagged g, .ok frame)
  | .newline f => let (g, frame) := Newline.next f; (.newline g, .ok frame)
  | .octetCounting f => let (g, frame) := OctetCounting.next f; (.octetCounting g, frame)

/-- The next frame when the stream has ended; `none` says that nothing is left. -/
def finish : Decoder → Decoder × Except Desync (Option Frame)
  | .tagged f => let (g, frame) := Tagged.finish f; (.tagged g, .ok frame)
  | .newline f => let (g, frame) := Newline.finish f; (.newline g, .ok frame)
  | .octetCounting f => let (g, frame) := OctetCounting.finish f; (.octetCounting g, frame)

/-- How many more bytes a decoder knows that it needs. -/
def wanted : Decoder → Nat
  | .octetCounting f => OctetCounting.wanted f
  | _ => 0

/-! ## All frames there are -/

/-- What the frames still to come use up. -/
def weight : Decoder → Nat
  | .tagged f => Tagged.weight f
  | .newline f => f.buffer.length
  | .octetCounting f => OctetCounting.weight f

theorem weight_next {d e : Decoder} {frame : Frame} (h : d.next = (e, .ok (some frame))) :
    e.weight < d.weight := by
  cases d with
  | tagged f =>
      simp only [next, Prod.mk.injEq, Except.ok.injEq] at h
      rw [← h.1]
      exact (Tagged.weight_next f).2 (by simp [h.2])
  | newline f =>
      simp only [next, Prod.mk.injEq, Except.ok.injEq] at h
      rw [← h.1]
      exact Newline.length_next (by simp [h.2])
  | octetCounting f =>
      simp only [next, Prod.mk.injEq] at h
      rw [← h.1]
      exact OctetCounting.weight_next (by simp [h.2, OctetCounting.yields])

theorem weight_finish {d e : Decoder} {frame : Frame} (h : d.finish = (e, .ok (some frame))) :
    e.weight < d.weight := by
  cases d with
  | tagged f =>
      simp only [finish, Prod.mk.injEq, Except.ok.injEq] at h
      rw [← h.1]
      exact Tagged.weight_finish (by simp [h.2])
  | newline f =>
      simp only [finish, Prod.mk.injEq, Except.ok.injEq] at h
      rw [← h.1]
      exact Newline.length_finish (by simp [h.2])
  | octetCounting f =>
      simp only [finish, Prod.mk.injEq] at h
      rw [← h.1]
      exact OctetCounting.weight_finish (by simp [h.2, OctetCounting.yields])

/-- What several calls handed out: the frames, and the loss of synchronisation that ended them. -/
structure Harvest where
  frames : List Frame
  desync : Option Desync
  deriving DecidableEq, Repr

def Harvest.cons (frame : Frame) (h : Harvest) : Harvest :=
  { h with frames := frame :: h.frames }

/-- Calls `next` until it asks for more bytes or fails. -/
def drain (d : Decoder) : Decoder × Harvest :=
  match _h : d.next with
  | (e, .ok (some frame)) => let (last, harvest) := drain e; (last, harvest.cons frame)
  | (e, .ok none) => (e, ⟨[], none⟩)
  | (e, .error desync) => (e, ⟨[], some desync⟩)
  termination_by d.weight
  decreasing_by exact weight_next _h

/-- Calls `finish` until nothing is left or it fails. -/
def drainEnd (d : Decoder) : Decoder × Harvest :=
  match _h : d.finish with
  | (e, .ok (some frame)) => let (last, harvest) := drainEnd e; (last, harvest.cons frame)
  | (e, .ok none) => (e, ⟨[], none⟩)
  | (e, .error desync) => (e, ⟨[], some desync⟩)
  termination_by d.weight
  decreasing_by exact weight_finish _h

/-- Receives the pieces of a stream one after the other and drains after each; a loss of synchronisation
ends the stream. -/
def stream (d : Decoder) : List Bytes → Decoder × Harvest
  | [] => (d, ⟨[], none⟩)
  | bytes :: rest =>
    match (d.feed bytes).drain with
    | (e, ⟨frames, some desync⟩) => (e, ⟨frames, some desync⟩)
    | (e, ⟨frames, none⟩) =>
      let (last, harvest) := e.stream rest
      (last, { harvest with frames := frames ++ harvest.frames })

end Decoder

/-- Cuts bytes into pieces of `size` bytes; the last piece may be shorter. -/
def Bytes.pieces (size : Nat) (bytes : Bytes) : List Bytes :=
  if bytes = [] then []
  else if size = 0 then [bytes]
  else bytes.take size :: Bytes.pieces size (bytes.drop size)
  termination_by bytes.length
  decreasing_by
    have : 0 < bytes.length := by cases bytes with
      | nil => contradiction
      | cons b rest => simp
    simp only [List.length_drop]
    omega

end LogIntake
