import LogIntake.Bytes
import LogIntake.Duration
import LogIntake.IoError

/-!
# What reading a connection gives

A source is what one connection will give to its reader: bytes, pauses, failures, and in the end the end of
the stream. A pause begins when the reader comes to it. The signal to shut down may come out of a source,
too; reading goes on after it.

The end of a pause costs one unit of the reader's allowance. A reader without allowance goes no further than
the next pause before it has its next turn.
-/

namespace LogIntake

inductive Source.Step where
  | data (bytes : Bytes)
  | pause (span : Duration)
  | failure (cause : IoError)
  /-- The signal to shut down is given. -/
  | signal
  /-- Nothing ever comes. -/
  | silence
  deriving DecidableEq, Repr

structure Source where
  steps : List Source.Step
  /-- When the pause in front ends, once the reader has come to it. -/
  pausedUntil : Option Instant := none
  deriving DecidableEq, Repr

namespace Source

/-- What one read gives. -/
inductive Read where
  | bytes (bytes : Bytes)
  | ended
  | failed (cause : IoError)
  /-- Nothing has come yet. -/
  | blocked
  /-- The allowance is used up. -/
  | spent
  deriving DecidableEq, Repr

/-- What is left after a read, what it gave, whether the signal was given meanwhile, and the allowance that
is left. -/
structure Reading where
  rest : Source
  result : Read
  signalled : Bool
  allowance : Nat
  deriving DecidableEq, Repr

/-- Reads at most `room` bytes from steps, of which a pause in front may already have begun. -/
def readSteps (now : Instant) (room : Nat) (pausedUntil : Option Instant) (signalled : Bool) (allowance : Nat) :
    List Step → Reading
  | [] => ⟨⟨[], none⟩, .ended, signalled, allowance⟩
  | .data bytes :: rest =>
    if bytes = [] then readSteps now room none signalled allowance rest
    else if bytes.drop room = [] then ⟨⟨rest, none⟩, .bytes bytes, signalled, allowance⟩
    else ⟨⟨.data (bytes.drop room) :: rest, none⟩, .bytes (bytes.take room), signalled, allowance⟩
  | .pause span :: rest =>
    let stop := pausedUntil.getD (now.plus span)
    if allowance = 0 then ⟨⟨.pause span :: rest, some stop⟩, .spent, signalled, 0⟩
    else if stop.nanos ≤ now.nanos then readSteps now room none signalled (allowance - 1) rest
    else ⟨⟨.pause span :: rest, some stop⟩, .blocked, signalled, allowance⟩
  | .failure cause :: rest => ⟨⟨rest, none⟩, .failed cause, signalled, allowance⟩
  | .signal :: rest => readSteps now room none true allowance rest
  | .silence :: rest => ⟨⟨.silence :: rest, none⟩, .blocked, signalled, allowance⟩

/-- Reads at least one byte if there is one, and at most `room`. -/
def read (s : Source) (now : Instant) (room allowance : Nat) : Reading :=
  readSteps now (max 1 room) s.pausedUntil false allowance s.steps

/-- How much a step can still give. -/
def Step.weight : Step → Nat
  | .data bytes => bytes.length + 1
  | _ => 1

/-- How much a source can still give. -/
def weight (s : Source) : Nat :=
  s.steps.foldr (·.weight + ·) 0

theorem weight_cons (step : Step) (steps : List Step) (pausedUntil : Option Instant) :
    weight ⟨step :: steps, pausedUntil⟩ = step.weight + weight ⟨steps, none⟩ := rfl

theorem weight_readSteps {now : Instant} {room : Nat} (hroom : 0 < room) (pausedUntil : Option Instant)
    (signalled : Bool) (allowance : Nat) (steps : List Step) {bytes : Bytes}
    (h : (readSteps now room pausedUntil signalled allowance steps).result = .bytes bytes) :
    (readSteps now room pausedUntil signalled allowance steps).rest.weight < weight ⟨steps, none⟩ := by
  induction steps generalizing pausedUntil signalled allowance with
  | nil => simp [readSteps] at h
  | cons s rest ih =>
      cases s with
      | data b =>
          simp only [readSteps] at h ⊢
          split
          · next hb =>
              rw [if_pos hb] at h
              have := ih _ _ _ h
              simp only [weight_cons]
              omega
          · split
            · simp [weight_cons, Step.weight]
            · next hlong =>
                have : room < b.length := by
                  rw [List.drop_eq_nil_iff] at hlong
                  omega
                simp only [weight_cons, Step.weight, List.length_drop]
                omega
      | pause span =>
          simp only [readSteps] at h ⊢
          split
          · next ha =>
              rw [if_pos ha] at h
              simp at h
          · next ha =>
              rw [if_neg ha] at h
              split
              · next hs =>
                  rw [if_pos hs] at h
                  have := ih _ _ _ h
                  simp only [weight_cons]
                  omega
              · next hs =>
                  rw [if_neg hs] at h
                  simp at h
      | failure cause => simp [readSteps] at h
      | signal =>
          simp only [readSteps] at h ⊢
          have := ih _ _ _ h
          simp only [weight_cons]
          omega
      | silence => simp [readSteps] at h

/-- A read that gives bytes leaves less. -/
theorem weight_read {s : Source} {now : Instant} {room allowance : Nat} {bytes : Bytes}
    (h : (s.read now room allowance).result = .bytes bytes) :
    (s.read now room allowance).rest.weight < s.weight :=
  weight_readSteps (by omega) _ _ _ _ h

end Source

end LogIntake
