import LogIntake.Toml.Number
import Mathlib.Data.List.TakeWhile

/-!
# Natural numbers in TOML, written and read back

The decimal digits of a natural number are read as an integer, and as nothing else: a number with a fraction or an
exponent, a date and a time all have a character that is no digit.
-/

namespace LogIntake.Toml

variable {c : Char} {cs rest : List Char}

/-! ## Digits -/

theorem digit?_of_isDigit (h : c.isDigit = true) : Hexadecimal.digit? c = some (c.toNat - '0'.toNat) := by
  have hrange : ('0' ≤ c && c ≤ '9') = true := h
  rw [Hexadecimal.digit?, if_pos hrange]

theorem toNat_lt_of_isDigit (h : c.isDigit = true) : c.toNat - '0'.toNat < 10 := by
  have hle : c.toNat ≤ 57 := (Char.isDigit_iff_toNat.mp h).2
  show c.toNat - 48 < 10
  omega

theorem value_ne_zero (h : c.isDigit = true) (hc : c ≠ '0') : c.toNat - 48 ≠ 0 := by
  have hge : 48 ≤ c.toNat := (Char.isDigit_iff_toNat.mp h).1
  intro hzero
  have heq : c.toNat = '0'.toNat := Nat.le_antisymm (Nat.le_of_sub_eq_zero hzero) hge
  exact hc (by rw [← Char.ofNat_toNat c, heq]; rfl)

theorem grouped_of_isDigit (afterDigit : Bool) (h : ∀ c ∈ cs, c.isDigit = true) (hne : afterDigit = true ∨ cs ≠ []) :
    grouped 10 afterDigit cs = some (cs.map fun c => c.toNat - '0'.toNat) := by
  induction cs generalizing afterDigit with
  | nil => simp [grouped, hne.resolve_right (by simp)]
  | cons c cs ih =>
      obtain ⟨hdigit, hmore⟩ := List.forall_mem_cons.mp h
      have hscore : c ≠ '_' := fun heq => by simp [heq] at hdigit
      simp only [grouped, if_neg hscore, digit?_of_isDigit hdigit, Option.filter_some,
        decide_eq_true (toNat_lt_of_isDigit hdigit), if_true, ih true hmore (.inl rfl)]
      rfl

theorem isDigit_toDigits (n : Nat) : ∀ c ∈ Nat.toDigits 10 n, c.isDigit = true :=
  fun _ => Nat.isDigit_of_mem_toDigits (by decide) (by decide)

theorem ofDigits_toDigits (n : Nat) : ofDigits 10 ((Nat.toDigits 10 n).map fun c => c.toNat - '0'.toNat) = n := by
  rw [ofDigits, List.foldl_map]
  exact Nat.ofDigitChars_ten_toDigits

/-- The digits of a number do not begin with a zero, unless this is all. -/
theorem head?_toDigits {n : Nat} (h : 0 < n) : (Nat.toDigits 10 n).head? ≠ some '0' := by
  induction n using Nat.strongRecOn with
  | ind n ih =>
      rcases Nat.lt_or_ge n 10 with hlt | hge
      · rw [Nat.toDigits_of_lt_base hlt]
        intro hzero
        have hdigit := Nat.digitChar_eq_zero.mp (Option.some.inj hzero)
        omega
      · have hfront := ih (n / 10) (by omega) (by omega)
        rw [Nat.toDigits_of_base_le (by decide) hge]
        cases hdigits : Nat.toDigits 10 (n / 10) with
        | nil => exact absurd hdigits Nat.toDigits_ne_nil
        | cons c front => rwa [hdigits] at hfront

theorem decimal?_toDigits (n : Nat) :
    decimal? (Nat.toDigits 10 n) = some ((Nat.toDigits 10 n).map fun c => c.toNat - '0'.toNat) := by
  rw [decimal?, grouped_of_isDigit false (isDigit_toDigits n) (.inr Nat.toDigits_ne_nil), Option.filter_some, if_pos]
  cases n with
  | zero => rfl
  | succ n =>
      have hhead := head?_toDigits (Nat.succ_pos n)
      have hdigits := isDigit_toDigits (n + 1)
      cases hwritten : Nat.toDigits 10 (n + 1) with
      | nil => exact absurd hwritten Nat.toDigits_ne_nil
      | cons c cs =>
          rw [hwritten] at hhead hdigits
          have hvalue := value_ne_zero (List.forall_mem_cons.mp hdigits).1 fun hc => hhead (congrArg some hc)
          simp [hvalue]

/-! ## Nothing but digits -/

theorem take_of_isDigit {d : Char} (hd : d.isDigit = false) (h : ∀ c ∈ cs, c.isDigit = true) : take d cs = none := by
  cases cs with
  | nil => rfl
  | cons c cs =>
      have hne : d ≠ c := fun heq => by
        rw [heq, (List.forall_mem_cons.mp h).1] at hd
        cases hd
      rw [take, if_neg hne]

theorem take_of_fixed {n k : Nat} {d : Char} (hd : d.isDigit = false) (h : ∀ c ∈ cs, c.isDigit = true)
    (hfixed : fixed n cs = some (k, rest)) : take d rest = none := by
  unfold fixed at hfixed
  simp only at hfixed
  split at hfixed
  · rw [← (Prod.mk.inj (Option.some.inj hfixed)).2]
    exact take_of_isDigit hd fun c hc => h c (List.mem_of_mem_drop hc)
  · cases hfixed

theorem date_of_isDigit (h : ∀ c ∈ cs, c.isDigit = true) : date cs = none := by
  unfold date
  cases hyear : fixed 4 cs with
  | none => rfl
  | some read => simp [take_of_fixed (d := '-') rfl h hyear]

theorem time_of_isDigit (h : ∀ c ∈ cs, c.isDigit = true) : time cs = none := by
  unfold time
  cases hhour : fixed 2 cs with
  | none => rfl
  | some read => simp [take_of_fixed (d := ':') rfl h hhour]

theorem signed_of_isDigit (h : ∀ c ∈ cs, c.isDigit = true) : signed cs = (false, cs) := by
  cases cs with
  | nil => rfl
  | cons c cs =>
      have hdigit := (List.forall_mem_cons.mp h).1
      unfold signed
      split
      · next heq => rw [(List.cons.inj heq).1] at hdigit; cases hdigit
      · next heq => rw [(List.cons.inj heq).1] at hdigit; cases hdigit
      · rfl

theorem scientific?_of_isDigit (h : ∀ c ∈ cs, c.isDigit = true) : scientific? cs = none := by
  have hgrouped : ∀ c ∈ cs, isGrouped c = true := fun c hc => by simp [isGrouped, h c hc]
  unfold scientific?
  rw [List.dropWhile_eq_nil_iff.2 hgrouped]
  cases decimal? (cs.takeWhile isGrouped) <;> rfl

/-- Digits write an integer and nothing else. -/
theorem unquoted?_of_isDigit (h : ∀ c ∈ cs, c.isDigit = true) : unquoted? cs = (integer? cs).map .integer := by
  have hword : ∀ word : List Char, (∃ c ∈ word, c.isDigit = false) → (cs == word) = false := by
    rintro word ⟨c, hc, hdigit⟩
    refine beq_eq_false_iff_ne.mpr fun heq => ?_
    rw [h c (heq ▸ hc)] at hdigit
    cases hdigit
  have hfloat : isFloat cs = false := by
    rw [isFloat, signed_of_isDigit h]
    simp only [hword ['i', 'n', 'f'] ⟨'i', by decide, rfl⟩, hword ['n', 'a', 'n'] ⟨'n', by decide, rfl⟩,
      scientific?_of_isDigit h, Option.any_none, Bool.or_self]
  have hdate : isDateTime cs = false := by
    rw [isDateTime, date_of_isDigit h, time_of_isDigit h]
    rfl
  rw [unquoted?, hword _ ⟨'t', by decide, rfl⟩, hword _ ⟨'f', by decide, rfl⟩, hfloat, hdate]
  rfl

theorem integer?_of_isDigit (h : ∀ c ∈ cs, c.isDigit = true) :
    integer? cs = ((decimal? cs).map fun ds => (ofDigits 10 ds : Int)).filter inRange := by
  have hbase : ∀ (d : Char) (more : List Char), d.isDigit = false → cs ≠ '0' :: d :: more := by
    intro d more hd heq
    rw [h d (by simp [heq])] at hd
    cases hd
  unfold integer?
  split
  · next rest => exact absurd rfl (hbase 'x' rest rfl)
  · next rest => exact absurd rfl (hbase 'o' rest rfl)
  · next rest => exact absurd rfl (hbase 'b' rest rfl)
  · rw [signed_of_isDigit h]

/-- A natural number is read back from its digits, if it can be held. -/
theorem unquoted?_toDigits {n : Nat} (hn : inRange n = true) :
    unquoted? (Nat.toDigits 10 n) = some (.integer n) := by
  rw [unquoted?_of_isDigit (isDigit_toDigits n), integer?_of_isDigit (isDigit_toDigits n), decimal?_toDigits,
    Option.map_some, ofDigits_toDigits, Option.filter_some, if_pos hn]
  rfl

/-! ## Words -/

theorem isAtom_of_isDigit (h : c.isDigit = true) : isAtom c = true := by
  simp [isAtom, Char.isAlphanum, h]

/-- An unquoted scalar goes up to the end of its line. -/
theorem atom_append (h : ∀ c ∈ cs, isAtom c = true) (rest : List Char) :
    atom (cs ++ '\n' :: rest) = (cs, '\n' :: rest) := by
  rw [atom, List.takeWhile_append_of_pos h, List.dropWhile_append_of_pos h]
  simp [isAtom]

end LogIntake.Toml
