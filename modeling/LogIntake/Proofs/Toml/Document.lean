import LogIntake.Proofs.Toml.Number
import LogIntake.Proofs.Toml.Text
import LogIntake.Toml.Reader
import Mathlib.Data.List.Forall2

/-!
# Documents in TOML, read statement by statement

A text spells a list of statements when it falls into pieces each of which is read as one of them, whatever comes behind
it (`Spells`). A document of sections, each with its header and with entries that have keys of their own, is read as the
table that has a table for each section (`ofStatements?_document`).
-/

namespace LogIntake.Toml

open List (Forall₂)

variable {read : List Char → Option (Statement × List Char)} {text more rest : List Char} {ss ts : List Statement}
  {key name : String} {bound : Nat}

/-! ## Pieces of a document -/

/-- Whatever comes behind it, a piece of a text is read as a statement. -/
structure Piece (read : List Char → Option (Statement × List Char)) (text : List Char) (s : Statement) : Prop where
  reads : ∀ rest, read (trivia false (text ++ rest)) = some (s, rest)
  ne_nil : ∀ rest, trivia false (text ++ rest) ≠ []

/-- A text falls into pieces, one for each statement. -/
def Spells (read : List Char → Option (Statement × List Char)) (text : List Char) (ss : List Statement) : Prop :=
  ∃ pieces, Forall₂ (Piece read) pieces ss ∧ pieces.flatten = text

namespace Spells

theorem nil : Spells read [] [] :=
  ⟨[], .nil, rfl⟩

theorem piece {s : Statement} (h : Piece read text s) : Spells read text [s] :=
  ⟨[text], .cons h .nil, List.flatten_singleton⟩

theorem append (h : Spells read text ss) (h' : Spells read more ts) : Spells read (text ++ more) (ss ++ ts) := by
  obtain ⟨pieces, hpieces, rfl⟩ := h
  obtain ⟨pieces', hpieces', rfl⟩ := h'
  exact ⟨pieces ++ pieces', List.rel_append hpieces hpieces', List.flatten_append⟩

/-- A line end in front of a statement changes nothing. -/
theorem blank (h : Spells read text ss) (hne : ss ≠ []) : Spells read ('\n' :: text) ss := by
  obtain ⟨pieces, hpieces, rfl⟩ := h
  cases hpieces with
  | nil => exact absurd rfl hne
  | @cons piece s pieces ss hpiece hmore =>
      exact ⟨('\n' :: piece) :: pieces, .cons ⟨hpiece.reads, hpiece.ne_nil⟩ hmore, rfl⟩

/-- Texts with a line end between any two of them. -/
theorem intercalate {texts : List (List Char)} {sss : List (List Statement)} (h : Forall₂ (Spells read) texts sss)
    (hne : ∀ ss ∈ sss, ss ≠ []) : Spells read (['\n'].intercalate texts) sss.flatten := by
  induction h with
  | nil => exact nil
  | @cons text ss texts sss hfirst hrest ih =>
      obtain ⟨-, hmore⟩ := List.forall_mem_cons.mp hne
      cases hrest with
      | nil => simpa [List.intercalate] using hfirst
      | @cons next ts texts sss hnext hlast =>
          have hts := (List.forall_mem_cons.mp hmore).1
          rw [List.intercalate_cons_cons, List.append_assoc, List.flatten_cons]
          refine hfirst.append ((ih hmore).blank fun hnil => hts ?_)
          exact (List.append_eq_nil_iff.mp hnil).1

/-- A text is read as what it spells. -/
theorem statements (h : Spells read text ss) {n : Nat} (hn : text.length < n) :
    Toml.statements read n text = some ss := by
  obtain ⟨pieces, hpieces, rfl⟩ := h
  induction hpieces generalizing n with
  | nil =>
      obtain ⟨n, rfl⟩ := Nat.exists_eq_succ_of_ne_zero (Nat.ne_of_gt hn)
      rfl
  | @cons piece s pieces ss hpiece hmore ih =>
      obtain ⟨n, rfl⟩ := Nat.exists_eq_succ_of_ne_zero (by omega : n ≠ 0)
      have hpos : 0 < piece.length := by
        refine List.length_pos_iff.mpr fun hnil => hpiece.ne_nil [] ?_
        rw [hnil]; rfl
      have hrest : pieces.flatten.length < n := by
        rw [List.flatten_cons, List.length_append] at hn
        omega
      rw [List.flatten_cons, Toml.statements]
      have hne := hpiece.ne_nil pieces.flatten
      split
      · next hnil => exact absurd hnil hne
      · simp only [hpiece.reads, ih hrest, Option.map_some]

/-- No statement begins with a byte order mark, so that none is dropped. -/
theorem dropMark (h : Spells (statement bound) text ss) : Toml.dropMark text = text := by
  obtain ⟨pieces, hpieces, rfl⟩ := h
  unfold Toml.dropMark
  split
  · next rest hmark =>
      cases hpieces with
      | nil => cases hmark
      | @cons piece s pieces ss hpiece hmore =>
          have hreads := hpiece.reads pieces.flatten
          rw [← List.flatten_cons, hmark] at hreads
          cases hreads
  · rfl

end Spells

/-! ## Keys -/

/-- A key that needs no quotes. -/
def Bare (key : String) : Prop :=
  key.toList ≠ [] ∧ ∀ c ∈ key.toList, isBare c = true

instance (key : String) : Decidable (Bare key) :=
  decidable_of_iff (key.toList ≠ [] ∧ key.toList.all isBare = true) (by rw [Bare, List.all_eq_true])

theorem Bare.exists_cons (h : Bare key) : ∃ c cs, key.toList = c :: cs ∧ isBare c = true := by
  obtain ⟨hne, hall⟩ := h
  cases hkey : key.toList with
  | nil => exact absurd hkey hne
  | cons c cs => exact ⟨c, cs, rfl, hall c (hkey ▸ List.mem_cons_self)⟩

theorem ne_of_isBare {c d : Char} (hc : isBare c = true) (hd : isBare d = false) : c ≠ d :=
  fun heq => by rw [heq, hd] at hc; cases hc

theorem skipSpace_of_ne {c : Char} (h : isSpace c = false) (cs : List Char) : skipSpace (c :: cs) = c :: cs := by
  rw [skipSpace, List.dropWhile_cons, h]
  rfl

theorem isSpace_of_isBare {c : Char} (h : isBare c = true) : isSpace c = false := by
  simp [isSpace, ne_of_isBare h (d := ' ') rfl, ne_of_isBare h (d := '\t') rfl]

/-- Nothing is skipped in front of a key or a header. -/
theorem trivia_cons {c : Char} (h : isBare c = true ∨ c = '[') (cs : List Char) : trivia false (c :: cs) = c :: cs := by
  rcases h with h | rfl
  · have hfeed := ne_of_isBare h (d := '\n') rfl
    have hreturn := ne_of_isBare h (d := '\r') rfl
    have hcomment := ne_of_isBare h (d := '#') rfl
    simp [trivia, beginsBreak, hfeed, hreturn, hcomment, isSpace_of_isBare h]
  · rfl

theorem simpleKey_append (h : Bare key) (hrest : ∀ c ∈ rest.head?, isBare c = false) :
    simpleKey (key.toList ++ rest) = some (key, rest) := by
  have hstop : rest.takeWhile isBare = [] ∧ rest.dropWhile isBare = rest := by
    cases rest with
    | nil => exact ⟨rfl, rfl⟩
    | cons d rest => simp [hrest d rfl]
  have htake : (key.toList ++ rest).takeWhile isBare = key.toList := by
    rw [List.takeWhile_append_of_pos h.2, hstop.1, List.append_nil]
  have hdrop : (key.toList ++ rest).dropWhile isBare = rest := by
    rw [List.dropWhile_append_of_pos h.2, hstop.2]
  have hquote : ∀ d more, isBare d = false → key.toList ++ rest ≠ d :: more := by
    intro d more hd heq
    obtain ⟨c, cs, hkey, hc⟩ := h.exists_cons
    rw [hkey] at heq
    exact ne_of_isBare hc hd (List.cons.inj heq).1
  unfold simpleKey
  split
  · next heq => exact absurd heq (hquote '"' _ rfl)
  · next heq => exact absurd heq (hquote '\'' _ rfl)
  · simp [htake, hdrop, h.1]

/-- A key without a path goes up to the character behind it, or behind the spaces after it. -/
theorem Path.read_append (h : Bare key) {d : Char} (hstop : (skipSpace rest).head? = some d) (hdot : d ≠ '.')
    (hrest : ∀ c ∈ rest.head?, isBare c = false) :
    Path.read (key.toList ++ rest) = some (⟨[], key⟩, skipSpace rest) := by
  obtain ⟨c, cs, hkey, hc⟩ := h.exists_cons
  have hskip : skipSpace (key.toList ++ rest) = key.toList ++ rest := by
    rw [hkey]
    exact skipSpace_of_ne (isSpace_of_isBare hc) _
  have hdotted : dottedKey maxDepth (key.toList ++ rest) = some ([], key, skipSpace rest) := by
    rw [maxDepth, dottedKey.eq_def, hskip, simpleKey_append h hrest]
    simp only
    split
    · next heq =>
        rw [heq] at hstop
        exact absurd (Option.some.inj hstop).symm hdot
    · rfl
  rw [Path.read, hdotted]
  rfl

/-! ## Items -/

theorem item_text (bound : Nat) (s : String) (rest : List Char) :
    item bound maxDepth ((writeString s).toList ++ '\n' :: rest) = some (.scalar (.string s), '\n' :: rest) := by
  have hhead : ∀ c ∈ ('\n' :: rest).head?, c ≠ '"' ∧ c ≠ '\'' := by simp
  have hquoted := quoted_writeString s hhead
  rw [item.eq_def, hquoted]
  simp

/-- A word on a line is read as the scalar that it writes. -/
theorem item_word (bound : Nat) {word : List Char} {held : Scalar} (hne : word ≠ [])
    (hatom : ∀ c ∈ word, isAtom c = true) (hread : unquoted? word = some held) (rest : List Char) :
    item bound maxDepth (word ++ '\n' :: rest) = some (.scalar held, '\n' :: rest) := by
  cases word with
  | nil => exact absurd rfl hne
  | cons c word =>
      have hfirst : ∀ d, isAtom d = false → c ≠ d := by
        rintro d hd rfl
        rw [hatom c List.mem_cons_self] at hd
        cases hd
      have hquoted : quoted (c :: word ++ '\n' :: rest) = none := by
        unfold quoted
        split
        · next heq => exact absurd (List.cons.inj heq).1 (hfirst '"' rfl)
        · next heq => exact absurd (List.cons.inj heq).1 (hfirst '\'' rfl)
        · rfl
      rw [item.eq_def, hquoted]
      simp only
      split
      · next heq => exact absurd (List.cons.inj heq).1 (hfirst '[' rfl)
      · next heq => exact absurd (List.cons.inj heq).1 (hfirst '\x7b' rfl)
      · rw [atom_append hatom, hread]
        rfl

theorem item_toDigits (bound : Nat) {n : Nat} (hn : inRange n = true) (rest : List Char) :
    item bound maxDepth (Nat.toDigits 10 n ++ '\n' :: rest) = some (.scalar (.integer n), '\n' :: rest) :=
  item_word bound Nat.toDigits_ne_nil (fun c hc => isAtom_of_isDigit (isDigit_toDigits n c hc))
    (unquoted?_toDigits hn) rest

/-! ## Headers and entries -/

/-- A section's header on a line of its own. -/
def headerLine (name : String) : List Char :=
  '[' :: name.toList ++ [']', '\n']

/-- An entry on a line of its own. -/
def entryLine (key : String) (value : List Char) : List Char :=
  key.toList ++ ' ' :: '=' :: ' ' :: value ++ ['\n']

theorem lineEnd_feed (rest : List Char) : lineEnd ('\n' :: rest) = some rest := rfl

theorem piece_headerLine (bound : Nat) (h : Bare name) :
    Piece (statement bound) (headerLine name) (.header ⟨[], name⟩) := by
  obtain ⟨c, cs, hname, hc⟩ := h.exists_cons
  have hskip : ∀ rest, trivia false (headerLine name ++ rest) = '[' :: (name.toList ++ ']' :: '\n' :: rest) := by
    intro rest
    simp only [headerLine, List.cons_append, List.append_assoc, trivia_cons (.inr rfl), List.nil_append]
  refine ⟨fun rest => ?_, fun rest => hskip rest ▸ List.cons_ne_nil _ _⟩
  have hstop : ∀ c ∈ (']' :: '\n' :: rest).head?, isBare c = false := by simp [isBare]
  have hpath := Path.read_append h (d := ']') rfl (by decide) hstop
  rw [hskip, statement]
  · rw [hpath]
    simp [skipSpace, isSpace, take, lineEnd_feed]
  · intro more heq
    rw [hname] at heq
    exact ne_of_isBare hc (d := '[') rfl (List.cons.inj heq).1

theorem piece_entryLine {value : List Char} {held : Item} (h : Bare key) (hvalue : ∀ c ∈ value.head?, isSpace c = false)
    (hread : ∀ rest, item bound maxDepth (value ++ '\n' :: rest) = some (held, '\n' :: rest)) :
    Piece (statement bound) (entryLine key value) (.entry ⟨[], key⟩ held) := by
  obtain ⟨c, cs, hkey, hc⟩ := h.exists_cons
  have hskip : ∀ rest, trivia false (entryLine key value ++ rest)
      = key.toList ++ ' ' :: '=' :: ' ' :: (value ++ '\n' :: rest) := by
    intro rest
    rw [entryLine, hkey]
    simp only [List.cons_append, List.append_assoc, trivia_cons (.inl hc), List.nil_append]
  refine ⟨fun rest => ?_, fun rest => ?_⟩
  · have hstop : ∀ c ∈ (' ' :: '=' :: ' ' :: (value ++ '\n' :: rest)).head?, isBare c = false := by simp [isBare]
    have hpath := Path.read_append h (d := '=') rfl (by decide) hstop
    have hspace : skipSpace (' ' :: (value ++ '\n' :: rest)) = value ++ '\n' :: rest := by
      cases value with
      | nil => rfl
      | cons d value => exact skipSpace_of_ne (hvalue d rfl) _
    have hassigned : assignment skipSpace (item bound maxDepth)
        (key.toList ++ ' ' :: '=' :: ' ' :: (value ++ '\n' :: rest)) = some (⟨[], key⟩, held, '\n' :: rest) := by
      have hsign : take '=' (skipSpace (skipSpace (' ' :: '=' :: ' ' :: (value ++ '\n' :: rest))))
          = some (' ' :: (value ++ '\n' :: rest)) := rfl
      simp [assignment, hpath, hsign, hspace, hread]
    have hbracket : ∀ more, key.toList ++ ' ' :: '=' :: ' ' :: (value ++ '\n' :: rest) ≠ '[' :: more := by
      intro more heq
      rw [hkey] at heq
      exact ne_of_isBare hc (d := '[') rfl (List.cons.inj heq).1
    rw [hskip, statement]
    · rw [hassigned]
      rfl
    · exact fun more heq => hbracket _ heq
    · exact fun more heq => hbracket _ heq
  · rw [hskip, hkey]
    exact List.cons_ne_nil _ _

/-! ## Tables -/

/-- The keys of a table. -/
def Table.keys (table : Table) : List String :=
  table.map Prod.fst

theorem Table.lookup_of_notMem {table : Table} (h : key ∉ table.keys) : table.lookup key = none := by
  refine List.lookup_eq_none_iff.mpr fun entry hentry => ?_
  simp only [bne_iff_ne, ne_eq]
  rintro rfl
  exact h (List.mem_map_of_mem hentry)

theorem Table.lookup_of_mem {table : Table} (hdistinct : table.keys.Nodup) {held : Item} (h : (key, held) ∈ table) :
    table.lookup key = some held := by
  induction table with
  | nil => cases h
  | cons entry table ih =>
      obtain ⟨hfirst, hmore⟩ := List.nodup_cons.mp hdistinct
      rcases List.mem_cons.mp h with rfl | hmem
      · exact List.lookup_cons_self
      · have hne : (key == entry.1) = false := by
          refine beq_eq_false_iff_ne.mpr ?_
          rintro rfl
          exact hfirst (List.mem_map.mpr ⟨_, hmem, rfl⟩)
        rw [List.lookup_cons, hne]
        exact ih hmore hmem

theorem Table.lookup_append_self {table : Table} (h : name ∉ table.keys) (held : Item) :
    (table ++ [(name, held)]).lookup name = some held := by
  rw [List.lookup_append, Table.lookup_of_notMem h, Option.none_or, List.lookup_cons_self]

theorem Table.replace_append_self {table : Table} (h : name ∉ table.keys) (held other : Item) :
    Table.replace (table ++ [(name, held)]) name other = table ++ [(name, other)] := by
  have hsame : table.replace name other = table := by
    refine (List.map_congr_left fun entry hentry => if_neg ?_).trans (List.map_id _)
    rintro rfl
    exact h (List.mem_map_of_mem hentry)
  rw [Table.replace, List.map_append, ← Table.replace, hsame]
  simp

/-- A header opens a table under a new name. -/
theorem Draft.add?_header {table : Table} (h : name ∉ table.keys) (current : List String) :
    Draft.add? ⟨table, current⟩ (.header ⟨[], name⟩) = some ⟨table ++ [(name, .table .header [])], [name]⟩ := by
  simp [Draft.add?, Table.within, Table.openTable, Table.lookup_of_notMem h, Path.keys]

/-- An entry goes to the end of the table that the last header opened. -/
theorem Draft.add?_entry {table inner : Table} (hname : name ∉ table.keys) (hkey : key ∉ inner.keys) (held : Item) :
    Draft.add? ⟨table ++ [(name, .table .header inner)], [name]⟩ (.entry ⟨[], key⟩ held)
      = some ⟨table ++ [(name, .table .header (inner ++ [(key, held)]))], [name]⟩ := by
  have hassign : Table.assign [] key held .header inner = some (inner ++ [(key, held)]) := by
    simp [Table.assign, Table.within, Table.add, Table.lookup_of_notMem hkey]
  simp [Draft.add?, Table.within, Table.lookup_append_self hname, Table.replace_append_self hname, hassign]

/-- The statements of a section: its header and its entries. -/
def sectionStatements (part : String × Table) : List Statement :=
  .header ⟨[], part.1⟩ :: part.2.map fun entry => .entry ⟨[], entry.1⟩ entry.2

theorem Draft.foldlM_entries {table : Table} (hname : name ∉ table.keys) (entries inner : Table)
    (hdistinct : (inner ++ entries).keys.Nodup) :
    (entries.map fun entry => Statement.entry ⟨[], entry.1⟩ entry.2).foldlM Draft.add?
        ⟨table ++ [(name, .table .header inner)], [name]⟩
      = some ⟨table ++ [(name, .table .header (inner ++ entries))], [name]⟩ := by
  induction entries generalizing inner with
  | nil => simp
  | cons entry entries ih =>
      have hsplit : (inner ++ entry :: entries) = (inner ++ [entry]) ++ entries := by simp
      have hfresh : entry.1 ∉ inner.keys := by
        rw [Table.keys, List.map_append] at hdistinct
        exact fun hmem => (List.nodup_append.mp hdistinct).2.2 _ hmem _ List.mem_cons_self rfl
      rw [List.map_cons, List.foldlM_cons, Draft.add?_entry hname hfresh, hsplit]
      exact ih _ (hsplit ▸ hdistinct)

/-- A document with a section for each of some distinct names, where the keys of a section are distinct. -/
theorem ofStatements?_document {parts : List (String × Table)} (hnames : (parts.map Prod.fst).Nodup)
    (hkeys : ∀ part ∈ parts, part.2.keys.Nodup) :
    Table.ofStatements? (parts.map sectionStatements).flatten
      = some (parts.map fun part => (part.1, .table .header part.2)) := by
  suffices h : ∀ (table : Table) (current : List String), (table.keys ++ parts.map Prod.fst).Nodup →
      ∃ last, (parts.map sectionStatements).flatten.foldlM Draft.add? ⟨table, current⟩
        = some ⟨table ++ parts.map fun part => (part.1, .table .header part.2), last⟩ by
    obtain ⟨last, hlast⟩ := h [] [] hnames
    rw [Table.ofStatements?, hlast]
    rfl
  clear hnames
  induction parts with
  | nil => exact fun table current _ => ⟨current, by simp⟩
  | cons part parts ih =>
      obtain ⟨hfirst, hmore⟩ := List.forall_mem_cons.mp hkeys
      intro table current hnames
      have hfresh : part.1 ∉ table.keys :=
        fun hmem => (List.nodup_append.mp hnames).2.2 _ hmem _ List.mem_cons_self rfl
      obtain ⟨last, hlast⟩ := ih hmore (table ++ [(part.1, .table .header part.2)]) [part.1]
        (by simpa [Table.keys] using hnames)
      refine ⟨last, ?_⟩
      rw [List.map_cons, List.flatten_cons, List.foldlM_append, sectionStatements, List.foldlM_cons,
        Draft.add?_header hfresh]
      rw [Option.bind_eq_bind, Option.bind_some, Draft.foldlM_entries hfresh part.2 [] hfirst]
      simpa using hlast

end LogIntake.Toml
