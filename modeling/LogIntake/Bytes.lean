/-!
# Byte strings

A byte string is a list of bytes. Framings look for tags and line ends in what they have received so
far, and have to know how much of the end may still grow into a tag with the next bytes. Two functions
answer this: `indexOf?` finds the first occurrence of a pattern, and `overlap` measures the longest
proper prefix of a pattern with which a text ends.
-/

namespace LogIntake

/-- A string of bytes. -/
abbrev Bytes := List UInt8

namespace Bytes

/-- Space, tab, line feed, form feed and carriage return: the blanks of ASCII. -/
def isBlank (b : UInt8) : Bool :=
  b == 32 || b == 9 || b == 10 || b == 12 || b == 13

/-- The decimal digits of ASCII. -/
def isDigit (b : UInt8) : Bool :=
  48 ≤ b && b ≤ 57

/-- The number that a string of ASCII digits writes in base ten. -/
def decimal (digits : Bytes) : Nat :=
  digits.foldl (fun n b => 10 * n + (b.toNat - 48)) 0

/-- The position of the first occurrence of `pattern`, where the text begins at position `i`. -/
def indexFrom (pattern : Bytes) (i : Nat) : Bytes → Option Nat
  | [] => none
  | b :: rest => if pattern.isPrefixOf (b :: rest) then some i else indexFrom pattern (i + 1) rest

/-- The position of the first occurrence of a non-empty pattern in a text. -/
def indexOf? (pattern text : Bytes) : Option Nat :=
  indexFrom pattern 0 text

/-- The greatest `k` up to a bound for which the text ends with the first `k` bytes of the pattern. -/
def overlapUpTo (pattern text : Bytes) : Nat → Nat
  | 0 => 0
  | k + 1 => if (pattern.take (k + 1)).isSuffixOf text then k + 1 else overlapUpTo pattern text k

/-- The end of a text that may be a proper prefix of the pattern. -/
def ending (pattern text : Bytes) : Bytes :=
  text.drop (text.length - (pattern.length - 1))

/-- The length of the longest proper prefix of the pattern with which the text ends. -/
def overlap (pattern text : Bytes) : Nat :=
  overlapUpTo pattern (ending pattern text) (ending pattern text).length

/-! ## First facts -/

theorem overlapUpTo_le (pattern text : Bytes) (k : Nat) : overlapUpTo pattern text k ≤ k := by
  induction k with
  | zero => simp [overlapUpTo]
  | succ k ih =>
      simp only [overlapUpTo]
      split
      · exact Nat.le_refl _
      · exact Nat.le_succ_of_le ih

theorem length_ending (pattern text : Bytes) :
    (ending pattern text).length = min (pattern.length - 1) text.length := by
  simp only [ending, List.length_drop]
  omega

theorem ending_suffix (pattern text : Bytes) : ending pattern text <:+ text :=
  List.drop_suffix _ _

/-- Of a text only the end matters for what it ends with. -/
theorem overlapUpTo_ending (pattern text : Bytes) {k : Nat} (hk : k ≤ (ending pattern text).length) :
    overlapUpTo pattern (ending pattern text) k = overlapUpTo pattern text k := by
  induction k with
  | zero => rfl
  | succ k ih =>
      have hends : (pattern.take (k + 1)).isSuffixOf (ending pattern text)
          = (pattern.take (k + 1)).isSuffixOf text := by
        rw [Bool.eq_iff_iff, List.isSuffixOf_iff_suffix, List.isSuffixOf_iff_suffix]
        constructor
        · intro h
          exact h.trans (ending_suffix pattern text)
        · intro h
          refine List.suffix_of_suffix_length_le h (ending_suffix pattern text) ?_
          exact Nat.le_trans (List.length_take_le _ _) hk
      simp only [overlapUpTo, hends, ih (Nat.le_of_succ_le hk)]

/-- The overlap is what counting down from the longest proper prefix finds first. -/
theorem overlap_eq (pattern text : Bytes) :
    overlap pattern text = overlapUpTo pattern text (min (pattern.length - 1) text.length) := by
  rw [overlap, overlapUpTo_ending pattern text (Nat.le_refl _), length_ending]

theorem overlap_le_length (pattern text : Bytes) : overlap pattern text ≤ text.length :=
  Nat.le_trans (overlapUpTo_le ..) (ending_suffix pattern text).length_le

/-- A pattern is found in a text that is not empty only. -/
theorem length_pos_of_indexOf? {pattern text : Bytes} {i : Nat} (h : indexOf? pattern text = some i) :
    0 < text.length := by
  cases text with
  | nil => simp [indexOf?, indexFrom] at h
  | cons b rest => simp

end Bytes

end LogIntake
