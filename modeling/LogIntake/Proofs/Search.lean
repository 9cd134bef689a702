import LogIntake.Bytes

/-!
# Searching in pieces

A text that comes in pieces can be searched piece by piece. What has been searched in vain may be dropped,
all but the overlap with the pattern at its end: no occurrence begins before it, whatever comes behind
(`indexOf?_append_of_none`), and what overlaps at the new end is the same (`overlap_append`).
-/

namespace LogIntake.Bytes

variable {pattern text more : Bytes}

/-- The pattern stands in the text at a position. -/
def OccursAt (pattern text : Bytes) (i : Nat) : Prop :=
  pattern <+: text.drop i

theorem OccursAt.length_le {i : Nat} (h : OccursAt pattern text i) (hp : pattern ≠ []) :
    i + pattern.length ≤ text.length := by
  have hle := List.IsPrefix.length_le h
  have hpos := List.length_pos_iff.mpr hp
  rw [List.length_drop] at hle
  omega

theorem occursAt_append_iff {i : Nat} (h : i + pattern.length ≤ text.length) :
    OccursAt pattern (text ++ more) i ↔ OccursAt pattern text i := by
  unfold OccursAt
  rw [List.drop_append_of_le_length (by omega)]
  constructor
  · intro ho
    refine List.prefix_of_prefix_length_le ho (List.prefix_append _ _) ?_
    rw [List.length_drop]; omega
  · intro ho
    exact ho.trans (List.prefix_append _ _)

theorem occursAt_drop_iff {i n : Nat} : OccursAt pattern (text.drop n) i ↔ OccursAt pattern text (n + i) := by
  rw [OccursAt, OccursAt, List.drop_drop]

/-! ## The first occurrence -/

theorem indexFrom_eq_map (pattern text : Bytes) (i : Nat) :
    indexFrom pattern i text = (indexFrom pattern 0 text).map (i + ·) := by
  induction text generalizing i with
  | nil => rfl
  | cons b rest ih =>
      simp only [indexFrom]
      split
      · rfl
      · rw [ih (i + 1), ih (0 + 1), Option.map_map]
        congr 1
        funext j
        simp only [Function.comp_apply]; omega

theorem indexOf?_cons (pattern : Bytes) (b : UInt8) (rest : Bytes) :
    indexOf? pattern (b :: rest)
      = if pattern <+: b :: rest then some 0 else (indexOf? pattern rest).map (1 + ·) := by
  simp only [indexOf?, indexFrom, List.isPrefixOf_iff_prefix]
  split
  · rfl
  · exact indexFrom_eq_map ..

/-- The search finds the least position at which the pattern stands. -/
theorem indexOf?_eq_some_iff (hp : pattern ≠ []) {i : Nat} :
    indexOf? pattern text = some i ↔ OccursAt pattern text i ∧ ∀ j < i, ¬ OccursAt pattern text j := by
  induction text generalizing i with
  | nil => simp [indexOf?, indexFrom, OccursAt, hp]
  | cons b rest ih =>
      rw [indexOf?_cons]
      split
      · next hb =>
          constructor
          · intro h
            obtain rfl := Option.some.inj h
            exact ⟨hb, fun j hj => absurd hj (Nat.not_lt_zero _)⟩
          · rintro ⟨-, hleast⟩
            cases i with
            | zero => rfl
            | succ i => exact absurd hb (hleast 0 (Nat.succ_pos _))
      · next hb =>
          cases i with
          | zero =>
              constructor
              · intro h
                obtain ⟨j, -, hj⟩ := Option.map_eq_some_iff.mp h
                omega
              · intro h
                exact absurd h.1 hb
          | succ i =>
              have hsucc : (indexOf? pattern rest).map (1 + ·) = some (i + 1) ↔ indexOf? pattern rest = some i := by
                rw [Option.map_eq_some_iff]
                constructor
                · rintro ⟨j, hj, hji⟩
                  obtain rfl : j = i := by omega
                  exact hj
                · intro h
                  exact ⟨i, h, by omega⟩
              rw [hsucc, ih]
              constructor
              · rintro ⟨ho, hleast⟩
                refine ⟨ho, fun j hj => ?_⟩
                cases j with
                | zero => exact hb
                | succ j => exact hleast j (by omega)
              · rintro ⟨ho, hleast⟩
                exact ⟨ho, fun j hj => hleast (j + 1) (by omega)⟩

theorem indexOf?_eq_none_iff (hp : pattern ≠ []) :
    indexOf? pattern text = none ↔ ∀ i, ¬ OccursAt pattern text i := by
  constructor
  · intro h i
    induction i using Nat.strongRecOn with
    | ind i ih =>
        intro ho
        have := (indexOf?_eq_some_iff hp).mpr ⟨ho, ih⟩
        rw [h] at this
        cases this
  · intro h
    cases hi : indexOf? pattern text with
    | none => rfl
    | some i => exact absurd ((indexOf?_eq_some_iff hp).mp hi).1 (h i)

theorem le_length_of_indexOf? (hp : pattern ≠ []) {i : Nat} (h : indexOf? pattern text = some i) :
    i + pattern.length ≤ text.length :=
  ((indexOf?_eq_some_iff hp).mp h).1.length_le hp

theorem indexOf?_drop_of_none (hp : pattern ≠ []) (h : indexOf? pattern text = none) (n : Nat) :
    indexOf? pattern (text.drop n) = none := by
  rw [indexOf?_eq_none_iff hp] at h ⊢
  intro i ho
  exact h _ (occursAt_drop_iff.mp ho)

/-- Positions at which the pattern does not stand may be passed over. -/
theorem indexOf?_eq_map_drop (hp : pattern ≠ []) {n : Nat} (h : ∀ j < n, ¬ OccursAt pattern text j) :
    indexOf? pattern text = (indexOf? pattern (text.drop n)).map (n + ·) := by
  cases hi : indexOf? pattern (text.drop n) with
  | none =>
      rw [indexOf?_eq_none_iff hp] at hi
      rw [Option.map_none, indexOf?_eq_none_iff hp]
      intro j ho
      rcases Nat.lt_or_ge j n with hj | hj
      · exact h j hj ho
      · obtain ⟨k, rfl⟩ := Nat.exists_eq_add_of_le hj
        exact hi k (occursAt_drop_iff.mpr ho)
  | some i =>
      rw [indexOf?_eq_some_iff hp] at hi
      rw [Option.map_some, indexOf?_eq_some_iff hp]
      refine ⟨occursAt_drop_iff.mp hi.1, fun j hji ho => ?_⟩
      rcases Nat.lt_or_ge j n with hj | hj
      · exact h j hj ho
      · obtain ⟨k, rfl⟩ := Nat.exists_eq_add_of_le hj
        exact hi.2 k (by omega) (occursAt_drop_iff.mpr ho)

theorem indexOf?_append_of_some (hp : pattern ≠ []) {i : Nat} (h : indexOf? pattern text = some i) :
    indexOf? pattern (text ++ more) = some i := by
  have hle := le_length_of_indexOf? hp h
  rw [indexOf?_eq_some_iff hp] at h ⊢
  refine ⟨(occursAt_append_iff hle).mpr h.1, fun j hj ho => ?_⟩
  exact h.2 j hj ((occursAt_append_iff (by omega)).mp ho)

/-- What is found with more bytes only is complete in these. -/
theorem length_lt_of_indexOf?_append (hp : pattern ≠ []) {i : Nat} (h : indexOf? pattern text = none)
    (hi : indexOf? pattern (text ++ more) = some i) : text.length < i + pattern.length := by
  rcases Nat.lt_or_ge text.length (i + pattern.length) with hlt | hge
  · exact hlt
  · have ho := ((indexOf?_eq_some_iff hp).mp hi).1
    rw [occursAt_append_iff hge] at ho
    exact absurd ho ((indexOf?_eq_none_iff hp).mp h i)

/-! ## The overlap -/

theorem take_overlapUpTo_suffix (pattern text : Bytes) (k : Nat) :
    pattern.take (overlapUpTo pattern text k) <:+ text := by
  induction k with
  | zero => simp [overlapUpTo]
  | succ k ih =>
      simp only [overlapUpTo]
      split
      · next h => exact List.isSuffixOf_iff_suffix.mp h
      · exact ih

theorem le_overlapUpTo {k n : Nat} (hk : k ≤ n) (h : pattern.take k <:+ text) :
    k ≤ overlapUpTo pattern text n := by
  induction n with
  | zero => omega
  | succ n ih =>
      simp only [overlapUpTo]
      split
      · exact hk
      · next hn =>
          rcases Nat.lt_or_eq_of_le hk with hlt | rfl
          · exact ih (by omega)
          · exact absurd (List.isSuffixOf_iff_suffix.mpr h) hn

theorem take_overlap_suffix (pattern text : Bytes) : pattern.take (overlap pattern text) <:+ text := by
  rw [overlap_eq]
  exact take_overlapUpTo_suffix ..

theorem overlap_lt (hp : pattern ≠ []) (text : Bytes) : overlap pattern text < pattern.length := by
  have hle := overlapUpTo_le pattern text (min (pattern.length - 1) text.length)
  have hpos := List.length_pos_iff.mpr hp
  rw [overlap_eq]
  omega

theorem le_overlap {k : Nat} (hk : k < pattern.length) (h : pattern.take k <:+ text) :
    k ≤ overlap pattern text := by
  have hlen := h.length_le
  rw [List.length_take] at hlen
  rw [overlap_eq]
  exact le_overlapUpTo (by omega) h

theorem overlap_eq_length (hlt : text.length < pattern.length) (h : text <+: pattern) :
    overlap pattern text = text.length := by
  refine Nat.le_antisymm (overlap_le_length ..) (le_overlap hlt ?_)
  exact ⟨[], (List.prefix_iff_eq_take.mp h).symm⟩

/-! ## What may be dropped -/

/-- How many bytes of a text that does not hold the pattern can no longer be a part of it. -/
def settled (pattern text : Bytes) : Nat :=
  text.length - overlap pattern text

theorem settled_le (pattern text : Bytes) : settled pattern text ≤ text.length :=
  Nat.sub_le ..

theorem drop_settled (hp : pattern ≠ []) (text : Bytes) :
    text.drop (settled pattern text) = pattern.take (overlap pattern text) := by
  have hlt := overlap_lt hp text
  obtain ⟨front, hfront⟩ := take_overlap_suffix pattern text
  have hlen := congrArg List.length hfront
  rw [List.length_append, List.length_take] at hlen
  have hs : settled pattern text = front.length := by unfold settled; omega
  calc text.drop (settled pattern text)
      = (front ++ pattern.take (overlap pattern text)).drop front.length := by rw [hs, hfront]
    _ = pattern.take (overlap pattern text) := List.drop_left

/-- Whatever comes behind a text without the pattern, no occurrence begins in its settled part. -/
theorem not_occursAt_of_lt_settled (hp : pattern ≠ []) (h : indexOf? pattern text = none) {j : Nat}
    (hj : j < settled pattern text) : ¬ OccursAt pattern (text ++ more) j := by
  intro ho
  rcases Nat.lt_or_ge text.length (j + pattern.length) with hlong | hshort
  · -- The occurrence reaches beyond the text, so that the text ends with its first bytes.
    have hjle : j ≤ text.length := by have := settled_le pattern text; omega
    have hstart : text.drop j <+: pattern := by
      rw [OccursAt, List.drop_append_of_le_length hjle] at ho
      refine List.prefix_of_prefix_length_le (List.prefix_append _ _) ho ?_
      rw [List.length_drop]; omega
    have hk : text.length - j ≤ overlap pattern text := by
      refine le_overlap (by omega) ?_
      rw [← List.length_drop, ← List.prefix_iff_eq_take.mp hstart]
      exact List.drop_suffix ..
    unfold settled at hj
    omega
  · exact (indexOf?_eq_none_iff hp).mp h j ((occursAt_append_iff hshort).mp ho)

/-- The search goes on with what is kept. -/
theorem indexOf?_append_of_none (hp : pattern ≠ []) (h : indexOf? pattern text = none) :
    indexOf? pattern (text ++ more)
      = (indexOf? pattern (text.drop (settled pattern text) ++ more)).map (settled pattern text + ·) := by
  rw [indexOf?_eq_map_drop hp (fun j hj => not_occursAt_of_lt_settled hp h hj),
    List.drop_append_of_le_length (settled_le ..)]

/-- What overlaps at the end depends on what is kept only. -/
theorem overlap_append (hp : pattern ≠ []) (text more : Bytes) :
    overlap pattern (text ++ more) = overlap pattern (text.drop (settled pattern text) ++ more) := by
  have hlt := overlap_lt hp (text ++ more)
  have hlt' := overlap_lt hp (text.drop (settled pattern text) ++ more)
  have hkept : text.drop (settled pattern text) ++ more <:+ text ++ more := by
    obtain ⟨front, hfront⟩ := List.drop_suffix (settled pattern text) text
    exact ⟨front, by rw [← List.append_assoc, hfront]⟩
  refine Nat.le_antisymm ?_ (le_overlap hlt' ((take_overlap_suffix ..).trans hkept))
  have hsuf := take_overlap_suffix pattern (text ++ more)
  refine le_overlap hlt (List.suffix_of_suffix_length_le hsuf hkept ?_)
  generalize overlap pattern (text ++ more) = k at hlt hsuf
  rcases Nat.lt_or_ge k more.length with hshort | hlong
  · rw [List.length_take, List.length_append]; omega
  · -- Without the new bytes, what overlaps at the end overlapped before.
    obtain ⟨front, hfront⟩ := hsuf
    have hlen := congrArg List.length hfront
    rw [List.length_append, List.length_append, List.length_take] at hlen
    have htext : text = front ++ pattern.take (k - more.length) := by
      calc text = (text ++ more).take text.length := by simp
        _ = (front ++ pattern.take k).take text.length := by rw [hfront]
        _ = front ++ pattern.take (k - more.length) := by
            rw [List.take_append, List.take_of_length_le (by omega), List.take_take]
            congr 2
            omega
    have hk : k - more.length ≤ overlap pattern text :=
      le_overlap (by omega) ⟨front, htext.symm⟩
    have hle := overlap_le_length pattern text
    rw [List.length_take, List.length_append, List.length_drop, settled]
    omega

/-! ## Nothing less may be kept -/

theorem indexOf?_self (hp : pattern ≠ []) : indexOf? pattern pattern = some 0 := by
  rw [indexOf?_eq_some_iff hp]
  refine ⟨List.prefix_refl pattern, ?_⟩
  intro j hj
  omega

/-- What overlaps at the end of a text can be completed to an occurrence. -/
theorem indexOf?_completed (hp : pattern ≠ []) (h : indexOf? pattern text = none) :
    indexOf? pattern (text ++ pattern.drop (overlap pattern text)) = some (settled pattern text) := by
  rw [indexOf?_append_of_none hp h, drop_settled hp, List.take_append_drop, indexOf?_self hp]
  rfl

/-- With fewer bytes kept than overlap, this occurrence is missed. -/
theorem indexOf?_completed_ne {fewer : Nat} (hp : pattern ≠ []) (h : indexOf? pattern text = none)
    (hfewer : fewer < overlap pattern text) :
    indexOf? pattern (text ++ pattern.drop (overlap pattern text))
      ≠ (indexOf? pattern (text.drop (text.length - fewer) ++ pattern.drop (overlap pattern text))).map
          (text.length - fewer + ·) := by
  intro heq
  rw [indexOf?_completed hp h] at heq
  obtain ⟨i, -, hi⟩ := Option.map_eq_some_iff.mp heq.symm
  have hle := overlap_le_length pattern text
  rw [settled] at hi
  omega

/-- The search finds the first place at which a pattern stands, and nothing if it stands nowhere. Of a text without it,
whatever comes behind, the search may keep the end that overlaps with the pattern and nothing else; and there are bytes
for which it would miss the occurrence that begins there, if it kept less. -/
theorem keeps_what_overlaps (hp : pattern ≠ []) (text : Bytes) :
    (∀ i, indexOf? pattern text = some i ↔ OccursAt pattern text i ∧ ∀ j < i, ¬ OccursAt pattern text j) ∧
      (indexOf? pattern text = none ↔ ∀ i, ¬ OccursAt pattern text i) ∧
      (indexOf? pattern text = none →
        let k := overlap pattern text
        let last (n : Nat) : Bytes := text.drop (text.length - n)
        (last k).length = k ∧
          (∀ more, indexOf? pattern (text ++ more) = (indexOf? pattern (last k ++ more)).map (text.length - k + ·)) ∧
          (0 < k → ∃ more, indexOf? pattern (text ++ more) = some (text.length - k) ∧
            ∀ fewer < k, indexOf? pattern (text ++ more)
              ≠ (indexOf? pattern (last fewer ++ more)).map (text.length - fewer + ·))) := by
  refine ⟨fun i => indexOf?_eq_some_iff hp, indexOf?_eq_none_iff hp, ?_⟩
  intro h k last
  have hle : k ≤ text.length := overlap_le_length pattern text
  refine ⟨?_, fun more => indexOf?_append_of_none hp h, ?_⟩
  · simp only [last, List.length_drop]
    omega
  · intro _
    refine ⟨pattern.drop k, indexOf?_completed hp h, ?_⟩
    intro fewer hfewer
    exact indexOf?_completed_ne hp h hfewer

/-- Of `xaba`, three bytes and one byte are beginnings of `abab`; three are to be kept. -/
theorem keeps_what_overlaps_repeated :
    let pattern : Bytes := [97, 98, 97, 98]
    let text : Bytes := [120, 97, 98, 97]
    pattern ≠ [] ∧ indexOf? pattern text = none ∧ overlap pattern text = 3 ∧
      (∀ more, indexOf? pattern (text ++ more) = (indexOf? pattern ([97, 98, 97] ++ more)).map (1 + ·)) ∧
      ∃ more, indexOf? pattern (text ++ more) = some 1 ∧
        ∀ fewer < 3, indexOf? pattern (text ++ more)
          ≠ (indexOf? pattern (text.drop (4 - fewer) ++ more)).map (4 - fewer + ·) := by
  intro pattern text
  have hp : pattern ≠ [] := by decide
  have hnone : indexOf? pattern text = none := by decide
  obtain ⟨-, -, hkept⟩ := keeps_what_overlaps hp text
  obtain ⟨-, hmore, hless⟩ := hkept hnone
  exact ⟨hp, hnone, by decide, hmore, hless (by decide)⟩

/-! ## Patterns without a border -/

/-- No beginning of the pattern, with the pattern behind it, holds the pattern any earlier. -/
def Unbordered (pattern : Bytes) : Prop :=
  ∀ k < pattern.length, indexOf? pattern (pattern.take k ++ pattern) = some k

instance (pattern : Bytes) : Decidable (Unbordered pattern) :=
  inferInstanceAs (Decidable (∀ k < pattern.length, _))

theorem isInfix_iff_exists_occursAt : pattern <:+: text ↔ ∃ i, OccursAt pattern text i := by
  constructor
  · rintro ⟨front, back, rfl⟩
    refine ⟨front.length, ?_⟩
    rw [OccursAt, List.append_assoc, List.drop_left]
    exact List.prefix_append ..
  · rintro ⟨i, ho⟩
    exact List.IsInfix.trans ho.isInfix (List.drop_suffix i text).isInfix

theorem indexOf?_eq_none_iff_not_isInfix (hp : pattern ≠ []) : indexOf? pattern text = none ↔ ¬ pattern <:+: text := by
  rw [indexOf?_eq_none_iff hp, isInfix_iff_exists_occursAt, not_exists]

/-- Behind a text without it, such a pattern is found where it has been put, whatever the text ends with. -/
theorem indexOf?_append_self (hp : pattern ≠ []) (hu : Unbordered pattern) (h : indexOf? pattern text = none)
    (more : Bytes) : indexOf? pattern (text ++ (pattern ++ more)) = some text.length := by
  have hle := overlap_le_length pattern text
  have hfound := hu _ (overlap_lt hp text)
  rw [indexOf?_append_of_none hp h, drop_settled hp, ← List.append_assoc, indexOf?_append_of_some hp hfound,
    Option.map_some, settled]
  congr 1
  omega

/-! ## Blanks in front -/

theorem dropWhile_dropWhile_append (p : UInt8 → Bool) (s more : Bytes) :
    (s.dropWhile p ++ more).dropWhile p = (s ++ more).dropWhile p := by
  induction s with
  | nil => rfl
  | cons b rest ih =>
      cases hb : p b with
      | true => simpa [List.dropWhile_cons, hb] using ih
      | false => simp [hb]

theorem dropWhile_append_of_ne_nil {p : UInt8 → Bool} {s : Bytes} (h : s.dropWhile p ≠ []) (more : Bytes) :
    (s.dropWhile p ++ more).dropWhile p = s.dropWhile p ++ more := by
  rw [dropWhile_dropWhile_append, List.dropWhile_append, if_neg]
  simpa using h

/-- Blanks are skipped up to a text that begins with something else. -/
theorem dropWhile_append_front {p : UInt8 → Bool} {text : Bytes} (h : text.dropWhile p = text) (s : Bytes) :
    (s ++ text).dropWhile p = s.dropWhile p ++ text := by
  by_cases hs : s.dropWhile p = []
  · rw [← dropWhile_dropWhile_append, hs, List.nil_append, h]
  · rw [← dropWhile_dropWhile_append, dropWhile_append_of_ne_nil hs]

/-- Skipping blanks commutes with receiving more, as far as it is known how many there were. -/
theorem length_sub_dropWhile_append (p : UInt8 → Bool) (s more : Bytes) :
    (s ++ more).length - ((s ++ more).dropWhile p).length
      = (s.length - (s.dropWhile p).length)
        + ((s.dropWhile p ++ more).length - ((s ++ more).dropWhile p).length) := by
  have hs : (s.dropWhile p).length ≤ s.length := (List.dropWhile_sublist _).length_le
  have hmore : ((s ++ more).dropWhile p).length ≤ (s.dropWhile p ++ more).length := by
    rw [← dropWhile_dropWhile_append]
    exact (List.dropWhile_sublist _).length_le
  simp only [List.length_append] at hmore ⊢
  omega

end LogIntake.Bytes
