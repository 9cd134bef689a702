import LogIntake.Toml.Writer
import Mathlib.Tactic.SplitIfs

/-!
# Strings in TOML, written and read back

Each form of strings can hold some strings (`Form.Holds`): a basic string any, since it has escapes, and a literal
string those without what would end it or may not stand in it. A string that is written in a form that can hold it is
read back from there, whatever comes behind the closing quote but another quote. The form in which a string is written
can hold it.
-/

namespace LogIntake.Toml

variable {c d : Char} {s rest more : List Char}

/-! ## Escapes -/

theorem char?_hexDigits : ∀ n < 128, Hexadecimal.char? ['0', '0', hexDigit (n / 16), hexDigit (n % 16)]
    = some (Char.ofNat n) := by
  decide +kernel

/-- An escape is a backslash and what is read back as the character; it does not end the line. -/
theorem escape_of_escapeOf {written : List Char} (h : escapeOf c = some written) (rest : List Char) :
    ∃ tail, written = '\\' :: tail ∧ escape (tail ++ rest) = some (c, rest) ∧ endsLine (tail ++ rest) = false := by
  unfold escapeOf at h
  split_ifs at h with hb ht hn hf hr hq he hcontrol <;> obtain rfl := Option.some.inj h
  iterate 7 exact ⟨_, rfl, by subst c; rfl, rfl⟩
  have hlow : c.toNat < 128 := by
    simp only [Bool.or_eq_true, decide_eq_true_eq, beq_iff_eq] at hcontrol
    omega
  have hread := char?_hexDigits c.toNat hlow
  rw [Char.ofNat_toNat] at hread
  exact ⟨_, rfl, by simp [escape, hexLength?, hread], rfl⟩

/-- What needs no escape may stand in a string as it is. -/
theorem plain_of_escapeOf_none (h : escapeOf c = none) :
    c ≠ '"' ∧ c ≠ '\\' ∧ c ≠ '\n' ∧ c ≠ '\r' ∧ isPlain c = true := by
  unfold escapeOf at h
  split_ifs at h with hb ht hn hf hreturn hquote hescape hcontrol
  refine ⟨hquote, hescape, hn, hreturn, ?_⟩
  simp only [Bool.or_eq_true, decide_eq_true_eq, beq_iff_eq, not_or] at hcontrol
  simp [isPlain, hcontrol.2, Nat.le_of_not_lt hcontrol.1]

/-! ## Strings on one line -/

theorem basic_quote (rest : List Char) : basic ('"' :: rest) = some ([], rest) := by
  rw [basic, if_pos rfl]

theorem basic_escape (h : escape rest = some (d, more)) : basic ('\\' :: rest) = (basic more).map (push d) := by
  rw [basic, if_neg (by decide), if_pos rfl]
  split
  · next hnone => rw [h] at hnone; cases hnone
  · next hsome => rw [h] at hsome; cases hsome; rfl

theorem basic_plain (hquote : c ≠ '"') (hescape : c ≠ '\\') (hplain : isPlain c = true) :
    basic (c :: rest) = (basic rest).map (push c) := by
  rw [basic, if_neg hquote, if_neg hescape, if_pos hplain]

theorem basic_escapeBasic (s rest : List Char) : basic (escapeBasic s ++ '"' :: rest) = some (s, rest) := by
  induction s with
  | nil => exact basic_quote rest
  | cons c s ih =>
      rw [escapeBasic, List.flatMap_cons, ← escapeBasic, List.append_assoc]
      cases hescape : escapeOf c with
      | some written =>
          obtain ⟨tail, rfl, hread, -⟩ := escape_of_escapeOf hescape (escapeBasic s ++ '"' :: rest)
          rw [Option.getD_some, List.cons_append, basic_escape hread, ih]
          rfl
      | none =>
          obtain ⟨hquote, hbackslash, -, -, hplain⟩ := plain_of_escapeOf_none hescape
          rw [Option.getD_none, List.cons_append, List.nil_append, basic_plain hquote hbackslash hplain, ih]
          rfl

theorem literal_append (h : ∀ c ∈ s, c ≠ '\'' ∧ isPlain c = true) (rest : List Char) :
    literal (s ++ '\'' :: rest) = some (s, rest) := by
  induction s with
  | nil => rfl
  | cons c s ih =>
      obtain ⟨⟨hquote, hplain⟩, hmore⟩ := List.forall_mem_cons.mp h
      rw [List.cons_append, literal, if_neg hquote, if_pos hplain, ih hmore]
      rfl

/-! ## Strings on several lines -/

theorem twoMore_eq_true {quote : Char} (h : twoMore quote rest = true) :
    ∃ last, rest = quote :: quote :: last := by
  unfold twoMore at h
  split at h
  · next c d last =>
      simp only [Bool.and_eq_true, beq_iff_eq] at h
      exact ⟨last, by rw [h.1, h.2]⟩
  · cases h

theorem closing_of_ne {quote : Char} (h : rest.head? ≠ some quote) : closing quote rest = ([], rest) := by
  match rest with
  | [] => rfl
  | [c] => simp_all [closing]
  | c :: d :: more => simp_all [closing]

/-- One quote more than closes a string belongs to it. -/
theorem closing_one {quote : Char} (h : rest.head? ≠ some quote) : closing quote (quote :: rest) = ([quote], rest) := by
  match rest with
  | [] => simp [closing]
  | c :: more => simp_all [closing]

theorem closing_two (quote : Char) (rest : List Char) :
    closing quote (quote :: quote :: rest) = ([quote, quote], rest) := by
  simp [closing]

theorem basicLines_close (h : twoMore '"' rest = true) :
    basicLines false ('"' :: rest) = some (closing '"' (rest.drop 2)) := by
  rw [basicLines, if_neg (by simp), if_pos rfl, if_pos h]

theorem basicLines_quote (h : twoMore '"' rest = false) :
    basicLines false ('"' :: rest) = (basicLines false rest).map (push '"') := by
  rw [basicLines, if_neg (by simp), if_pos rfl, if_neg (by simp [h])]

theorem basicLines_escape (hline : endsLine rest = false) (h : escape rest = some (d, more)) :
    basicLines false ('\\' :: rest) = (basicLines false more).map (push d) := by
  rw [basicLines, if_neg (by simp), if_neg (by decide), if_pos rfl, if_neg (by simp [hline])]
  split
  · next hnone => rw [h] at hnone; cases hnone
  · next hsome => rw [h] at hsome; cases hsome; rfl

theorem basicLines_plain (hquote : c ≠ '"') (hescape : c ≠ '\\') (h : c = '\n' ∨ isPlain c = true) :
    basicLines false (c :: rest) = (basicLines false rest).map (push c) := by
  rw [basicLines, if_neg (by simp), if_neg hquote, if_neg hescape, if_pos]
  rcases h with h | h <;> simp [h]

/-- What is written of a string begins with a quote only if the string does. -/
theorem eq_quote_of_head? {quotes : Nat} (h : (escapeLines quotes (c :: s) ++ rest).head? = some '"') :
    c = '"' ∧ quotes < 2 := by
  simp only [escapeLines] at h
  split_ifs at h with hquote hfew hline
  · exact ⟨hquote, hfew⟩
  · cases h
  · cases h
  · cases hescape : escapeOf c with
    | some written =>
        obtain ⟨tail, rfl, -⟩ := escape_of_escapeOf hescape []
        simp [hescape] at h
    | none => simp [hescape, hquote] at h

/-- A quote is followed by two more only at the end of the string, by those that close it. -/
theorem eq_nil_of_twoMore {quotes : Nat}
    (h : twoMore '"' (escapeLines (quotes + 1) s ++ '"' :: '"' :: '"' :: rest) = true) :
    s = [] ∨ quotes = 0 ∧ s = ['"'] := by
  obtain ⟨last, hlast⟩ := twoMore_eq_true h
  cases s with
  | nil => exact .inl rfl
  | cons c s =>
      obtain ⟨rfl, hfew⟩ := eq_quote_of_head? (congrArg List.head? hlast)
      obtain rfl : quotes = 0 := by omega
      cases s with
      | nil => exact .inr ⟨rfl, rfl⟩
      | cons d s =>
          have hnext : (escapeLines 2 (d :: s) ++ '"' :: '"' :: '"' :: rest).head? = some '"' :=
            congrArg (fun cs => cs.tail.head?) hlast
          exact absurd (eq_quote_of_head? hnext).2 (by decide)

theorem basicLines_escapeLines (quotes : Nat) (s : List Char) (hrest : rest.head? ≠ some '"') :
    basicLines false (escapeLines quotes s ++ '"' :: '"' :: '"' :: rest) = some (s, rest) := by
  induction s generalizing quotes with
  | nil =>
      rw [escapeLines, List.nil_append, basicLines_close rfl]
      exact congrArg some (closing_of_ne hrest)
  | cons c s ih =>
      rw [escapeLines]
      split_ifs with hquote hfew hline
      · subst hquote
        rw [List.cons_append]
        cases htwo : twoMore '"' (escapeLines (quotes + 1) s ++ '"' :: '"' :: '"' :: rest) with
        | false => rw [basicLines_quote htwo, ih]; rfl
        | true =>
            rw [basicLines_close htwo]
            rcases eq_nil_of_twoMore htwo with rfl | ⟨rfl, rfl⟩
            · exact congrArg some (closing_one hrest)
            · exact congrArg some (closing_two '"' rest)
      · subst hquote
        rw [List.cons_append, List.cons_append, basicLines_escape rfl rfl, ih]
        rfl
      · subst hline
        rw [List.cons_append, basicLines_plain (by decide) (by decide) (.inl rfl), ih]
        rfl
      · rw [List.append_assoc]
        cases hescape : escapeOf c with
        | some written =>
            obtain ⟨tail, rfl, hread, hends⟩ :=
              escape_of_escapeOf hescape (escapeLines 0 s ++ '"' :: '"' :: '"' :: rest)
            rw [Option.getD_some, List.cons_append, basicLines_escape hends hread, ih]
            rfl
        | none =>
            obtain ⟨-, hbackslash, -, -, hplain⟩ := plain_of_escapeOf_none hescape
            rw [Option.getD_none, List.cons_append, List.nil_append,
              basicLines_plain hquote hbackslash (.inr hplain), ih]
            rfl

/-! ### Literal strings -/

theorem literalLines_close (h : twoMore '\'' rest = true) :
    literalLines ('\'' :: rest) = some (closing '\'' (rest.drop 2)) := by
  rw [literalLines, if_pos rfl, if_pos h]

theorem literalLines_quote (h : twoMore '\'' rest = false) :
    literalLines ('\'' :: rest) = (literalLines rest).map (push '\'') := by
  rw [literalLines, if_pos rfl, if_neg (by simp [h])]

theorem literalLines_plain (hquote : c ≠ '\'') (h : c = '\n' ∨ isPlain c = true) :
    literalLines (c :: rest) = (literalLines rest).map (push c) := by
  rw [literalLines, if_neg hquote, if_pos]
  rcases h with h | h <;> simp [h]

/-- A string without three quotes in a row, and with nothing in it that may not stand there. -/
structure HoldsLines (s : List Char) : Prop where
  plain : ∀ c ∈ s, c = '\n' ∨ isPlain c = true
  quotes : ¬ ['\'', '\'', '\''] <:+: s

theorem HoldsLines.tail (h : HoldsLines (c :: s)) : HoldsLines s :=
  ⟨(List.forall_mem_cons.mp h.plain).2, fun hinfix => h.quotes (List.infix_cons hinfix)⟩

theorem literalLines_append (h : HoldsLines s) (hrest : rest.head? ≠ some '\'') :
    literalLines (s ++ '\'' :: '\'' :: '\'' :: rest) = some (s, rest) := by
  induction s with
  | nil =>
      rw [List.nil_append, literalLines_close rfl]
      exact congrArg some (closing_of_ne hrest)
  | cons c s ih =>
      rw [List.cons_append]
      by_cases hquote : c = '\''
      · subst hquote
        cases htwo : twoMore '\'' (s ++ '\'' :: '\'' :: '\'' :: rest) with
        | false => rw [literalLines_quote htwo, ih h.tail]; rfl
        | true =>
            rw [literalLines_close htwo]
            obtain ⟨last, hlast⟩ := twoMore_eq_true htwo
            match s with
            | [] => exact congrArg some (closing_one hrest)
            | [d] =>
                obtain rfl : d = '\'' := (List.cons.inj hlast).1
                exact congrArg some (closing_two '\'' rest)
            | d :: e :: s =>
                obtain ⟨rfl, htail⟩ := List.cons.inj hlast
                obtain rfl : e = '\'' := (List.cons.inj htail).1
                exact absurd ⟨[], s, rfl⟩ h.quotes
      · rw [literalLines_plain hquote (List.forall_mem_cons.mp h.plain).1, ih h.tail]
        rfl

/-! ## Forms -/

/-- The strings that a form can hold. -/
def Form.Holds (s : List Char) : Form → Prop
  | .basic => True
  | .literal => ∀ c ∈ s, c ≠ '\'' ∧ isPlain c = true
  | .basicLines => True
  | .literalLines => HoldsLines s

/-- A line end in front is dropped, and one that the string begins with comes behind it. -/
theorem dropLineEnd_leadingLine {text : List Char}
    (h : '\n' ∉ s → ∀ c ∈ text.head?, c ≠ '\n' ∧ c ≠ '\r') : dropLineEnd (leadingLine s ++ text) = text := by
  unfold leadingLine
  split_ifs with hline
  · rfl
  · rw [List.contains_iff_mem] at hline
    have hhead := h hline
    match text with
    | [] => rfl
    | c :: text =>
        obtain ⟨hfeed, hreturn⟩ := hhead c rfl
        rw [List.nil_append, dropLineEnd, lineBreak?]
        · rfl
        · exact fun _ heq => hfeed (List.cons.inj heq).1
        · exact fun _ heq => hreturn (List.cons.inj heq).1

theorem head?_escapeLines {quotes : Nat} (h : '\n' ∉ s) :
    ∀ c ∈ (escapeLines quotes s ++ '"' :: rest).head?, c ≠ '\n' ∧ c ≠ '\r' := by
  intro d hd
  cases s with
  | nil => cases hd; decide
  | cons c s =>
      simp only [escapeLines] at hd
      split_ifs at hd with hquote hfew hline
      · cases hd; decide
      · cases hd; decide
      · exact absurd (hline ▸ List.mem_cons_self) h
      · cases hescape : escapeOf c with
        | some written =>
            obtain ⟨tail, rfl, -⟩ := escape_of_escapeOf hescape []
            rw [hescape] at hd
            cases hd
            decide
        | none =>
            obtain ⟨-, -, hfeed, hreturn, -⟩ := plain_of_escapeOf_none hescape
            rw [hescape] at hd
            cases hd
            exact ⟨hfeed, hreturn⟩

theorem HoldsLines.head? (h : HoldsLines s) (hline : '\n' ∉ s) :
    ∀ c ∈ (s ++ '\'' :: rest).head?, c ≠ '\n' ∧ c ≠ '\r' := by
  intro d hd
  cases s with
  | nil => cases hd; decide
  | cons c s =>
      obtain rfl : c = d := Option.some.inj hd
      have hfeed : c ≠ '\n' := fun heq => hline (heq ▸ List.mem_cons_self)
      refine ⟨hfeed, fun hreturn => ?_⟩
      have hplain := ((List.forall_mem_cons.mp h.plain).1).resolve_left hfeed
      rw [hreturn] at hplain
      exact absurd hplain (by decide)

theorem head?_escapeBasic (s : List Char) : (escapeBasic s).head? ≠ some '"' := by
  intro h
  cases s with
  | nil => cases h
  | cons c s =>
      rw [escapeBasic, List.flatMap_cons] at h
      cases hescape : escapeOf c with
      | some written =>
          obtain ⟨tail, rfl, -⟩ := escape_of_escapeOf hescape []
          rw [hescape] at h
          cases h
      | none =>
          rw [hescape] at h
          exact (plain_of_escapeOf_none hescape).1 (Option.some.inj h)

/-- A string on one line does not look like one on several lines. -/
theorem twoMore_append {quote : Char} (hs : s.head? ≠ some quote) (hrest : rest.head? ≠ some quote) :
    twoMore quote (s ++ quote :: rest) = false := by
  rw [Bool.eq_false_iff]
  intro h
  obtain ⟨last, hlast⟩ := twoMore_eq_true h
  cases s with
  | nil => exact hrest (congrArg (fun cs => cs.tail.head?) hlast)
  | cons c s => exact hs (congrArg List.head? hlast)

/-- What is written in a form that can hold it is read back. -/
theorem quoted_write {form : Form} (h : form.Holds s) (hrest : ∀ c ∈ rest.head?, c ≠ '"' ∧ c ≠ '\'') :
    quoted (form.write s ++ rest) = some (some (s, rest)) := by
  have hdouble : rest.head? ≠ some '"' := fun heq => (hrest _ heq).1 rfl
  have hsingle : rest.head? ≠ some '\'' := fun heq => (hrest _ heq).2 rfl
  cases form with
  | basic =>
      have hmore := twoMore_append (head?_escapeBasic s) hdouble
      simp only [Form.write, List.append_assoc, List.cons_append, List.nil_append, quoted, hmore]
      rw [if_neg Bool.false_ne_true, basic_escapeBasic]
  | literal =>
      have hmore := twoMore_append (fun heq => (h _ (List.mem_of_head? heq)).1 rfl) hsingle
      simp only [Form.write, List.append_assoc, List.cons_append, List.nil_append, quoted, hmore]
      rw [if_neg Bool.false_ne_true, literal_append h]
  | basicLines =>
      have hhead := @head?_escapeLines s ('"' :: '"' :: rest) 0
      have hdrop := dropLineEnd_leadingLine hhead
      simp only [Form.write, List.append_assoc, List.cons_append, List.nil_append, quoted, twoMore, BEq.rfl,
        Bool.and_self, if_true, List.drop_succ_cons, List.drop_zero]
      rw [hdrop, basicLines_escapeLines 0 s hdouble]
  | literalLines =>
      have hhead := @HoldsLines.head? s ('\'' :: '\'' :: rest) h
      have hdrop := dropLineEnd_leadingLine hhead
      simp only [Form.write, List.append_assoc, List.cons_append, List.nil_append, quoted, twoMore, BEq.rfl,
        Bool.and_self, if_true, List.drop_succ_cons, List.drop_zero]
      rw [hdrop, literalLines_append h hsingle]

/-! ## The form of a string -/

theorem le_longestRun (c : Char) (run : Nat) (s : List Char) : run ≤ longestRun c run s := by
  induction s generalizing run with
  | nil => exact Nat.le_refl run
  | cons d s ih =>
      simp only [longestRun]
      split
      · exact Nat.le_of_succ_le (ih (run + 1))
      · exact Nat.le_max_left ..

theorem not_mem_of_longestRun (h : longestRun c 0 s = 0) : c ∉ s := by
  induction s with
  | nil => exact List.not_mem_nil
  | cons d s ih =>
      simp only [longestRun] at h
      split at h
      · have := le_longestRun c (0 + 1) s
        omega
      · next hne =>
          have hs : longestRun c 0 s = 0 := by omega
          exact fun hmem => (List.mem_cons.mp hmem).elim (fun heq => hne heq.symm) (ih hs)

theorem le_longestRun_of_isPrefix {n run : Nat} (h : List.replicate n c <+: s) : run + n ≤ longestRun c run s := by
  induction n generalizing run s with
  | zero => exact le_longestRun c run s
  | succ n ih =>
      obtain ⟨last, rfl⟩ := h
      have hmore := @ih (List.replicate n c ++ last) (run + 1) (List.prefix_append _ last)
      rw [List.replicate_succ, List.cons_append, longestRun, if_pos rfl]
      omega

/-- A string has no longer run of a character than the longest. -/
theorem le_longestRun_of_isInfix {n run : Nat} (h : List.replicate n c <:+: s) : n ≤ longestRun c run s := by
  induction s generalizing run with
  | nil =>
      rw [List.infix_nil, List.replicate_eq_nil_iff] at h
      exact h ▸ Nat.zero_le _
  | cons d s ih =>
      rcases List.infix_cons_iff.mp h with hprefix | hinfix
      · exact Nat.le_trans (Nat.le_add_left n run) (le_longestRun_of_isPrefix hprefix)
      · rw [longestRun]
        split
        · exact ih hinfix
        · exact Nat.le_trans (ih hinfix) (Nat.le_max_right ..)

theorem plain_of_not_isControl (h : isControl c = false) : c = '\n' ∨ isPlain c = true := by
  by_cases hfeed : c = '\n'
  · exact .inl hfeed
  · by_cases htab : c = '\t'
    · exact .inr (htab ▸ rfl)
    · have hboth : ¬ c.toNat < 0x20 ∧ ¬ c.toNat = 0x7F := by simpa [isControl, hfeed, htab] using h
      exact .inr (by simp [isPlain, hboth.2, Nat.le_of_not_lt hboth.1])

theorem Form.holds_of (s : List Char) : (Form.of s).Holds s := by
  have hplain : s.any isControl = false → ∀ c ∈ s, c = '\n' ∨ isPlain c = true := fun h c hc =>
    plain_of_not_isControl (List.any_eq_false.mp h c hc |> Bool.eq_false_iff.mpr)
  unfold Form.of
  simp only
  split_ifs with hbasic hliteral hlines hquotes hline
  · trivial
  · intro c hc
    simp only [Bool.and_eq_true, Bool.not_eq_true', beq_iff_eq, List.contains_eq_mem, decide_eq_false_iff_not]
      at hliteral
    obtain ⟨⟨hcontrol, hsingles⟩, hfeed⟩ := hliteral
    refine ⟨fun heq => not_mem_of_longestRun hsingles (heq ▸ hc), ?_⟩
    exact (hplain hcontrol c hc).resolve_left fun heq => hfeed (heq ▸ hc)
  · trivial
  · simp only [Bool.and_eq_true, Bool.not_eq_true', decide_eq_true_eq] at hquotes
    refine ⟨hplain hquotes.1, fun hinfix => ?_⟩
    have hthree : 3 ≤ longestRun '\'' 0 s := le_longestRun_of_isInfix hinfix
    omega
  · trivial
  · trivial

/-- A string is read back as it has been written. -/
theorem quoted_writeString (s : String) (hrest : ∀ c ∈ rest.head?, c ≠ '"' ∧ c ≠ '\'') :
    quoted ((writeString s).toList ++ rest) = some (some (s.toList, rest)) := by
  rw [writeString, String.toList_ofList]
  exact quoted_write (Form.holds_of s.toList) hrest

end LogIntake.Toml
