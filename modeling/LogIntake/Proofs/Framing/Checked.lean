import LogIntake.Proofs.Search
import Mathlib.Algebra.Group.Nat.Defs

/-!
# Operations that can fail

A computation with byte strings and numbers of 64 bits is sound if each of its operations is: a byte string is cut and
looked up inside of it only, no difference is negative, and no sum leaves the 64 bits. `Checked` pairs the value of a
computation with this condition. What a failed operation would have given is of no account: behind it the condition does
not hold.
-/

namespace LogIntake

/-- A value, and the condition that every operation on the way to it can be made. -/
structure Checked (α : Type) where
  value : α
  safe : Prop

namespace Checked

instance : Monad Checked where
  pure a := ⟨a, True⟩
  bind x f := ⟨(f x.value).value, x.safe ∧ (f x.value).safe⟩

section Monad

variable {α β : Type}

@[simp] theorem value_pure (a : α) : (pure a : Checked α).value = a := rfl

@[simp] theorem safe_pure (a : α) : (pure a : Checked α).safe := trivial

@[simp] theorem value_bind (x : Checked α) (f : α → Checked β) : (x >>= f).value = (f x.value).value := rfl

@[simp] theorem safe_bind (x : Checked α) (f : α → Checked β) : (x >>= f).safe ↔ x.safe ∧ (f x.value).safe := Iff.rfl

@[simp] theorem value_ite (c : Prop) [Decidable c] (x y : Checked α) :
    (if c then x else y).value = if c then x.value else y.value := apply_ite ..

@[simp] theorem safe_ite (c : Prop) [Decidable c] (x y : Checked α) :
    (if c then x else y).safe ↔ if c then x.safe else y.safe := by
  rw [apply_ite Checked.safe]

end Monad

/-! ## Single operations -/

/-- A number may not become as large as this. -/
def capacity : Nat := 2 ^ 64

def add (a b : Nat) : Checked Nat := ⟨a + b, a + b < capacity⟩

def sub (a b : Nat) : Checked Nat := ⟨a - b, b ≤ a⟩

/-- The byte at a position. -/
def index (buffer : Bytes) (i : Nat) : Checked UInt8 := ⟨buffer.getD i 0, i < buffer.length⟩

/-- The bytes from a position on. -/
def sliceFrom (buffer : Bytes) (n : Nat) : Checked Bytes := ⟨buffer.drop n, n ≤ buffer.length⟩

/-- The bytes up to a position. -/
def sliceTo (buffer : Bytes) (n : Nat) : Checked Bytes := ⟨buffer.take n, n ≤ buffer.length⟩

/-- What is left when bytes are taken off the front. -/
def advance (buffer : Bytes) (n : Nat) : Checked Bytes := ⟨buffer.drop n, n ≤ buffer.length⟩

/-- The bytes taken off the front, and what is left. -/
def splitTo (buffer : Bytes) (n : Nat) : Checked (Bytes × Bytes) :=
  ⟨(buffer.take n, buffer.drop n), n ≤ buffer.length⟩

/-- What is left when the bytes of a class are counted off the front. -/
def skipWhile (buffer : Bytes) (p : UInt8 → Bool) : Checked Bytes := advance buffer (buffer.takeWhile p).length

/-- All runs of `size` bytes in a byte string, from the front; a run has a byte at least. -/
def windows (buffer : Bytes) (size : Nat) : Checked (List Bytes) :=
  ⟨(List.range (buffer.length + 1 - size)).map fun i => (buffer.drop i).take size, 0 < size⟩

section Operations

variable (buffer : Bytes) (a b n : Nat)

@[simp] theorem value_add : (add a b).value = a + b := rfl

@[simp] theorem safe_add : (add a b).safe ↔ a + b < capacity := Iff.rfl

@[simp] theorem value_sub : (sub a b).value = a - b := rfl

@[simp] theorem safe_sub : (sub a b).safe ↔ b ≤ a := Iff.rfl

@[simp] theorem value_index : (index buffer n).value = buffer.getD n 0 := rfl

@[simp] theorem safe_index : (index buffer n).safe ↔ n < buffer.length := Iff.rfl

@[simp] theorem value_sliceFrom : (sliceFrom buffer n).value = buffer.drop n := rfl

@[simp] theorem safe_sliceFrom : (sliceFrom buffer n).safe ↔ n ≤ buffer.length := Iff.rfl

@[simp] theorem value_sliceTo : (sliceTo buffer n).value = buffer.take n := rfl

@[simp] theorem safe_sliceTo : (sliceTo buffer n).safe ↔ n ≤ buffer.length := Iff.rfl

@[simp] theorem value_advance : (advance buffer n).value = buffer.drop n := rfl

@[simp] theorem safe_advance : (advance buffer n).safe ↔ n ≤ buffer.length := Iff.rfl

@[simp] theorem value_splitTo : (splitTo buffer n).value = (buffer.take n, buffer.drop n) := rfl

@[simp] theorem safe_splitTo : (splitTo buffer n).safe ↔ n ≤ buffer.length := Iff.rfl

@[simp] theorem value_skipWhile (p : UInt8 → Bool) : (skipWhile buffer p).value = buffer.dropWhile p := by
  calc buffer.drop (buffer.takeWhile p).length
      = (buffer.takeWhile p ++ buffer.dropWhile p).drop (buffer.takeWhile p).length := by
        rw [List.takeWhile_append_dropWhile]
    _ = buffer.dropWhile p := List.drop_left

@[simp] theorem safe_skipWhile (p : UInt8 → Bool) : (skipWhile buffer p).safe :=
  (List.takeWhile_prefix p).length_le

end Operations

/-! ## Searching -/

/-- The position of the first occurrence of a pattern. -/
def find (text pattern : Bytes) : Checked (Option Nat) :=
  if pattern = [] ∨ text.length < pattern.length then pure none
  else do return (← windows text pattern.length).findIdx? (· == pattern)

/-- The greatest `k` up to a bound for which the text ends with the first `k` bytes of the pattern. -/
def overlapUpTo (text pattern : Bytes) : Nat → Checked Nat
  | 0 => pure 0
  | k + 1 => do
    let front ← sliceTo pattern (k + 1)
    if front.isSuffixOf text then pure (k + 1) else overlapUpTo text pattern k

/-- The length of the longest proper prefix of the pattern with which the text ends. -/
def overlap (text pattern : Bytes) : Checked Nat :=
  overlapUpTo text pattern (min (pattern.length - 1) text.length)

variable {text pattern : Bytes}

theorem findIdx?_windows (hp : pattern ≠ []) :
    (windows text pattern.length).value.findIdx? (· == pattern) = Bytes.indexOf? pattern text := by
  have hoccurs : ∀ i, (text.drop i).take pattern.length = pattern ↔ Bytes.OccursAt pattern text i :=
    fun i => by rw [Bytes.OccursAt, List.prefix_iff_eq_take, eq_comm]
  cases hfound : Bytes.indexOf? pattern text with
  | none =>
      have hnone := (Bytes.indexOf?_eq_none_iff hp).mp hfound
      rw [List.findIdx?_eq_none_iff]
      intro window hwindow
      obtain ⟨i, -, rfl⟩ := List.mem_map.mp hwindow
      exact beq_eq_false_iff_ne.mpr fun heq => hnone i ((hoccurs i).mp heq)
  | some i =>
      have hle := Bytes.le_length_of_indexOf? hp hfound
      obtain ⟨hoccur, hleast⟩ := (Bytes.indexOf?_eq_some_iff hp).mp hfound
      rw [List.findIdx?_eq_some_iff_getElem]
      refine ⟨by simp [windows]; omega, ?_, fun j hj => ?_⟩
      · simpa [windows] using (hoccurs i).mpr hoccur
      · simpa [windows] using fun heq => hleast j hj ((hoccurs j).mp heq)

theorem value_find (hp : pattern ≠ []) : (find text pattern).value = Bytes.indexOf? pattern text := by
  unfold find
  split
  · next hshort =>
      refine ((Bytes.indexOf?_eq_none_iff hp).mpr fun i hoccur => ?_).symm
      have hle := hoccur.length_le hp
      rcases hshort with hnil | hlt
      · exact hp hnil
      · omega
  · exact findIdx?_windows hp

@[simp] theorem safe_find : (find text pattern).safe := by
  unfold find
  split
  · exact safe_pure _
  · next hlong =>
      have hne : pattern ≠ [] := fun hnil => hlong (.inl hnil)
      exact ⟨List.length_pos_iff.mpr hne, trivial⟩

theorem value_overlapUpTo (k : Nat) : (overlapUpTo text pattern k).value = Bytes.overlapUpTo pattern text k := by
  induction k with
  | zero => rfl
  | succ k ih =>
      simp only [overlapUpTo, Bytes.overlapUpTo, ↓value_ite, value_bind, value_sliceTo, value_pure, ih]

theorem safe_overlapUpTo {k : Nat} (hk : k ≤ pattern.length) : (overlapUpTo text pattern k).safe := by
  induction k with
  | zero => exact safe_pure _
  | succ k ih =>
      have hrest := ih (Nat.le_of_succ_le hk)
      simp only [overlapUpTo, ↓safe_ite, safe_bind, safe_sliceTo, safe_pure, hrest, ite_self, and_true]
      exact hk

@[simp] theorem value_overlap : (overlap text pattern).value = Bytes.overlap pattern text := by
  rw [overlap, value_overlapUpTo, Bytes.overlap_eq]

@[simp] theorem safe_overlap : (overlap text pattern).safe :=
  safe_overlapUpTo (by omega)

end Checked

end LogIntake
