import LogIntake.Text.Numeral

/-!
# What numerals write

A text writes a number when it consists of decimal digits, at least one, perhaps behind a plus sign, and the
number is theirs. The parser reads just these texts, as far as the number lies under the bound.
-/

namespace LogIntake.Numeral

def isDigit (c : Char) : Bool :=
  '0' ≤ c && c ≤ '9'

def digitValue (c : Char) : Nat :=
  c.toNat - '0'.toNat

/-- The number of digits in base ten. -/
def value (cs : List Char) : Nat :=
  cs.foldl (fun n c => 10 * n + digitValue c) 0

/-- A text writes a number. -/
def Writes (text : String) (n : Nat) : Prop :=
  ∃ cs, (text.toList = cs ∨ text.toList = '+' :: cs) ∧ cs ≠ [] ∧ (∀ c ∈ cs, isDigit c = true) ∧ value cs = n

theorem digit?_eq (c : Char) : digit? c = if isDigit c then some (digitValue c) else none :=
  rfl

/-- More digits make a number no smaller. -/
theorem le_foldl (cs : List Char) (n : Nat) : n ≤ cs.foldl (fun n c => 10 * n + digitValue c) n := by
  induction cs generalizing n with
  | nil => exact Nat.le_refl n
  | cons c cs ih =>
      have hrest := ih (10 * n + digitValue c)
      rw [List.foldl_cons]
      omega

theorem digits_eq_ok_iff {bound n m : Nat} {cs : List Char} (hn : n < bound) :
    digits bound n cs = .ok m ↔
      (∀ c ∈ cs, isDigit c = true) ∧ cs.foldl (fun n c => 10 * n + digitValue c) n = m ∧ m < bound := by
  induction cs generalizing n with
  | nil =>
      rw [digits, Except.ok.injEq]
      exact ⟨fun h => ⟨by simp, h, h ▸ hn⟩, fun h => h.2.1⟩
  | cons c cs ih =>
      rw [digits, digit?_eq, List.forall_mem_cons, List.foldl_cons]
      cases hdigit : isDigit c with
      | false => simp
      | true =>
          simp only [if_true, true_and]
          split
          · next hlt => exact ih hlt
          · next hge =>
              refine ⟨fun h => (nomatch h), fun ⟨_, hm, hlt⟩ => ?_⟩
              have hle := le_foldl cs (10 * n + digitValue c)
              omega

/-- The parser reads what is written, if it lies under the bound. -/
theorem parse_eq_ok_iff {bound n : Nat} (hbound : 0 < bound) {text : String} :
    parse bound text = .ok n ↔ Writes text n ∧ n < bound := by
  have hplus : ∀ {cs : List Char}, ¬ ∀ c ∈ '+' :: cs, isDigit c = true := fun h =>
    absurd (h '+' List.mem_cons_self) (by decide)
  unfold parse Writes
  split
  · next htext =>
      refine ⟨fun h => (nomatch h), ?_⟩
      rintro ⟨⟨cs, hcs | hcs, hne, -⟩, -⟩
      · exact absurd (hcs.symm.trans htext) hne
      · cases htext.symm.trans hcs
  · next htext =>
      refine ⟨fun h => (nomatch h), ?_⟩
      rintro ⟨⟨cs, hcs | hcs, hne, hdigits, -⟩, -⟩
      · rw [← hcs, htext] at hdigits
        exact absurd hdigits hplus
      · exact absurd (List.cons.inj (htext.symm.trans hcs)).2.symm hne
  · next rest hrest htext =>
      rw [digits_eq_ok_iff hbound]
      constructor
      · rintro ⟨hdigits, hvalue, hlt⟩
        exact ⟨⟨rest, Or.inr htext, hrest, hdigits, hvalue⟩, hlt⟩
      · rintro ⟨⟨cs, hcs | hcs, -, hdigits, hvalue⟩, hlt⟩
        · rw [← hcs, htext] at hdigits
          exact absurd hdigits hplus
        · obtain rfl : rest = cs := (List.cons.inj (htext.symm.trans hcs)).2
          exact ⟨hdigits, hvalue, hlt⟩
  · next cs hnil hsign hmore =>
      rw [digits_eq_ok_iff hbound]
      constructor
      · rintro ⟨hdigits, hvalue, hlt⟩
        exact ⟨⟨text.toList, Or.inl rfl, hnil, hdigits, hvalue⟩, hlt⟩
      · rintro ⟨⟨cs, rfl | hcs, -, hdigits, hvalue⟩, hlt⟩
        · exact ⟨hdigits, hvalue, hlt⟩
        · exact absurd hcs (hmore cs)

end LogIntake.Numeral
