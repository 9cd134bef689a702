import LogIntake.Framing.Decoder

/-!
# Decoders in use

Whoever has a decoder feeds it, asks it for frames and tells it that the stream has ended, in any order and as
often as they like, also after an end or a failure. What each of these operations keeps holds of a decoder as
long as it is in use (`use_induction`).
-/

namespace LogIntake.Decoder

inductive Operation where
  | feed (bytes : Bytes)
  | next
  | finish
  deriving DecidableEq, Repr

def Operation.bytes : Operation → Bytes
  | .feed bytes => bytes
  | _ => []

/-- All bytes that a decoder is fed. -/
def fed (ops : List Operation) : Bytes :=
  ops.flatMap Operation.bytes

/-- A decoder after an operation, and the answer if it was a call. -/
def operate (d : Decoder) : Operation → Decoder × List (Except Desync (Option Frame))
  | .feed bytes => (d.feed bytes, [])
  | .next => (d.next.1, [d.next.2])
  | .finish => (d.finish.1, [d.finish.2])

/-- A decoder after some operations, and the answers to the calls among them. -/
def use (d : Decoder) : List Operation → Decoder × List (Except Desync (Option Frame))
  | [] => (d, [])
  | op :: ops =>
    let (e, answered) := d.operate op
    let (last, more) := e.use ops
    (last, answered ++ more)

variable {d : Decoder}

theorem feed_nil (d : Decoder) : d.feed [] = d := by
  cases d <;> simp [feed, Framer.feed]

theorem feed_feed (d : Decoder) (bytes more : Bytes) : (d.feed bytes).feed more = d.feed (bytes ++ more) := by
  cases d <;> simp [feed, Framer.feed]

theorem buffer_feed (d : Decoder) (bytes : Bytes) : (d.feed bytes).buffer = d.buffer ++ bytes := by
  cases d <;> rfl

theorem use_cons (d : Decoder) (op : Operation) (ops : List Operation) :
    d.use (op :: ops) = (((d.operate op).1.use ops).1, (d.operate op).2 ++ ((d.operate op).1.use ops).2) := rfl

/-- What every operation keeps, with something to say of every answer, holds in all use. -/
theorem use_induction {Kept : Decoder → Prop} {Said : Except Desync (Option Frame) → Prop}
    (hop : ∀ d op, Kept d → Kept (d.operate op).1 ∧ ∀ answer ∈ (d.operate op).2, Said answer) (h : Kept d)
    (ops : List Operation) : Kept (d.use ops).1 ∧ ∀ answer ∈ (d.use ops).2, Said answer := by
  induction ops generalizing d with
  | nil => exact ⟨h, nofun⟩
  | cons op ops ih =>
      obtain ⟨hkept, hsaid⟩ := hop d op h
      obtain ⟨hlast, hmore⟩ := ih hkept
      exact ⟨hlast, List.forall_mem_append.mpr ⟨hsaid, hmore⟩⟩

end LogIntake.Decoder
