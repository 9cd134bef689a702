import LogIntake.Proofs.Settings.Layering
import LogIntake.Proofs.Toml.Document
import LogIntake.Settings.Load
import Mathlib.Data.List.Nodup

/-!
# Settings, written and read back

What a layer has is written section by section, and is read back from the text: a field that was written has its value,
and any other keeps its default (`parse_toToml`).
-/

namespace LogIntake.Settings

open List (Forall₂)
open Toml (Bare Spells Piece Statement)

variable {bound : Nat}

/-! ## Values -/

/-- The item that is read where a value is written. -/
def Kind.item : (k : Kind) → k.Value → Toml.Item
  | .text, s => .scalar (.string s)
  | .number w, n => .scalar (.integer (w.toNat n))
  | .flag, b => .scalar (.boolean b)

theorem Kind.ofItem?_item (k : Kind) (v : k.Value) : k.ofItem? (k.item v) = some v := by
  cases k with
  | text => rfl
  | number w =>
      have hnat : ((w.toNat v : Nat) : Int).toNat = w.toNat v := Int.toNat_natCast _
      rw [Kind.item, Kind.ofItem?, if_pos (Int.natCast_nonneg _), hnat, Width.ofNat?, if_pos (w.toNat_lt_bound v),
        Width.word_toNat]
  | flag => rfl

theorem Width.inRange_toNat (w : Width) (n : w.Word) : Toml.inRange (w.toNat n) = true := by
  have hlt := w.toNat_lt_bound n
  have hbound : w.bound ≤ 1 <<< 64 := by cases w <;> decide
  simp only [Toml.inRange, Bool.and_eq_true, decide_eq_true_eq]
  omega

theorem toList_write_number (w : Width) (n : w.Word) :
    ((Kind.number w).write n).toList = Nat.toDigits 10 (w.toNat n) := by
  rw [Kind.write, Nat.toString_eq_ofList_toDigits, String.toList_ofList]

theorem Kind.item_write (bound : Nat) (k : Kind) (v : k.Value) (rest : List Char) :
    Toml.item bound Toml.maxDepth ((k.write v).toList ++ '\n' :: rest) = some (k.item v, '\n' :: rest) := by
  cases k with
  | text => exact Toml.item_text bound v rest
  | number w =>
      rw [toList_write_number]
      exact Toml.item_toDigits bound (w.inRange_toNat v) rest
  | flag =>
      cases v with
      | true =>
          have hword : ['t', 'r', 'u', 'e'].all Toml.isAtom = true := rfl
          exact Toml.item_word bound (by decide) (List.all_eq_true.mp hword) rfl rest
      | false =>
          have hword : ['f', 'a', 'l', 's', 'e'].all Toml.isAtom = true := rfl
          exact Toml.item_word bound (by decide) (List.all_eq_true.mp hword) rfl rest

theorem Kind.isSpace_head_write (k : Kind) (v : k.Value) : ∀ c ∈ (k.write v).toList.head?, Toml.isSpace c = false := by
  cases k with
  | text =>
      rw [Kind.write, Toml.writeString, String.toList_ofList]
      cases Toml.Form.of v.toList <;> rintro c hc <;> cases hc <;> rfl
  | number w =>
      rw [toList_write_number]
      intro c hc
      have hdigit := Toml.isDigit_toDigits _ c (List.mem_of_mem_head? hc)
      rw [Toml.isSpace, Bool.or_eq_false_iff, beq_eq_false_iff_ne, beq_eq_false_iff_ne]
      constructor <;> rintro rfl <;> cases hdigit
  | flag => cases v <;> rintro c hc <;> cases hc <;> rfl

/-! ## Names -/

theorem bare_name (f : Field) : Bare f.name := by
  cases f <;> decide

theorem Section.bare_name (s : Section) : Bare s.name := by
  cases s <;> decide

theorem Section.nodup_names : (Section.all.map Section.name).Nodup := by
  decide

/-- No two fields of a section share a name. -/
theorem nodup_names (s : Section) : ((Field.ofSection s).map Field.name).Nodup := by
  cases s <;> decide

/-! ## The text of a layer -/

/-- The entry of a field, if a layer has it. -/
def Layer.written? (layer : Layer) (f : Field) : Option (String × Toml.Item) :=
  (layer f).map fun v => (f.name, f.kind.item v)

/-- The entries of a section. -/
def Layer.entries (layer : Layer) (s : Section) : Toml.Table :=
  (Field.ofSection s).filterMap layer.written?

/-- A section with its entries; nothing if it has none. -/
def Layer.part? (layer : Layer) (s : Section) : Option (String × Toml.Table) :=
  if (layer.entries s).isEmpty then none else some (s.name, layer.entries s)

def Layer.parts (layer : Layer) : List (String × Toml.Table) :=
  Section.all.filterMap layer.part?

theorem toList_writeField (f : Field) (v : f.Value) :
    (writeField f v).toList = Toml.entryLine f.name (f.kind.write v).toList := by
  simp [writeField, Toml.entryLine]

theorem spells_fields (layer : Layer) (fields : List Field) :
    Spells (Toml.statement bound) (String.join (fields.filterMap fun f => (layer f).map (writeField f))).toList
      ((fields.filterMap layer.written?).map fun entry => .entry ⟨[], entry.1⟩ entry.2) := by
  induction fields with
  | nil => exact Spells.nil
  | cons f fields ih =>
      cases hvalue : layer f with
      | none => simpa [List.filterMap_cons, Layer.written?, hvalue] using ih
      | some v =>
          have hpiece := Toml.piece_entryLine (bare_name f) (f.kind.isSpace_head_write v) (f.kind.item_write bound v)
          rw [← toList_writeField] at hpiece
          simpa [List.filterMap_cons, Layer.written?, hvalue] using (Spells.piece hpiece).append ih

theorem spells_section (layer : Layer) (s : Section) :
    Option.Rel (fun text part => Spells (Toml.statement bound) text.toList (Toml.sectionStatements part))
      (writeSection layer s) (layer.part? s) := by
  have hempty : ((Field.ofSection s).filterMap fun f => (layer f).map (writeField f)).isEmpty
      = (layer.entries s).isEmpty := by
    rw [Bool.eq_iff_iff, List.isEmpty_iff, List.isEmpty_iff, Layer.entries, List.filterMap_eq_nil_iff,
      List.filterMap_eq_nil_iff]
    simp [Layer.written?]
  have hheader := Spells.piece (Toml.piece_headerLine bound s.bare_name)
  rw [writeSection, Layer.part?]
  simp only [hempty]
  split
  · exact .none
  · refine .some ?_
    have htext := hheader.append (spells_fields layer (Field.ofSection s))
    simpa [Toml.headerLine, Toml.sectionStatements, Layer.entries] using htext

theorem spells_toToml (layer : Layer) :
    Spells (Toml.statement bound) layer.toToml.toList (layer.parts.map Toml.sectionStatements).flatten := by
  have hsections : Forall₂ (Spells (Toml.statement bound))
      ((Section.all.filterMap (writeSection layer)).map String.toList) (layer.parts.map Toml.sectionStatements) := by
    rw [List.forall₂_map_left_iff, List.forall₂_map_right_iff]
    refine List.rel_filterMap (R := Eq) ?_ (List.forall₂_refl _)
    rintro s _ rfl
    exact spells_section layer s
  rw [Layer.toToml, String.toList_intercalate]
  refine Spells.intercalate hsections fun ss hss => ?_
  obtain ⟨part, -, rfl⟩ := List.mem_map.mp hss
  exact List.cons_ne_nil _ _

/-! ## Reading a layer back -/

section Lookup

variable {α β : Type} {as : List α} {name : α → String} {pair? : α → Option (String × β)}

theorem nodup_keys_filterMap (hnames : (as.map name).Nodup) (hpair : ∀ a p, pair? a = some p → p.1 = name a) :
    ((as.filterMap pair?).map Prod.fst).Nodup := by
  rw [List.Nodup, List.pairwise_map] at hnames ⊢
  rw [List.pairwise_filterMap]
  exact hnames.imp fun hne p hp q hq heq => hne (by rw [← hpair _ p hp, ← hpair _ q hq, heq])

/-- Entries with distinct names are found under their names. -/
theorem lookup_filterMap {pair? : α → Option (String × Toml.Item)} (hnames : (as.map name).Nodup)
    (hpair : ∀ a p, pair? a = some p → p.1 = name a) {a : α} (ha : a ∈ as) :
    (as.filterMap pair?).lookup (name a) = (pair? a).map Prod.snd := by
  cases hfound : pair? a with
  | some p =>
      rw [← hpair a p hfound]
      exact Toml.Table.lookup_of_mem (nodup_keys_filterMap hnames hpair) (List.mem_filterMap.mpr ⟨a, ha, hfound⟩)
  | none =>
      refine Toml.Table.lookup_of_notMem fun hmem => ?_
      obtain ⟨p, hp, hname⟩ := List.mem_map.mp hmem
      obtain ⟨b, hb, hsome⟩ := List.mem_filterMap.mp hp
      have hsame : b = a := List.inj_on_of_nodup_map hnames hb ha (by rw [← hpair b p hsome, hname])
      rw [hsame, hfound] at hsome
      cases hsome

end Lookup

theorem Layer.fst_of_written? {layer : Layer} (f : Field) (p : String × Toml.Item) (h : layer.written? f = some p) :
    p.1 = f.name := by
  obtain ⟨v, -, rfl⟩ := Option.map_eq_some_iff.mp h
  rfl

theorem Layer.part?_eq_some_iff {layer : Layer} {s : Section} {part : String × Toml.Table} :
    layer.part? s = some part ↔ layer.entries s ≠ [] ∧ (s.name, layer.entries s) = part := by
  rw [Layer.part?, ite_eq_iff]
  simp

/-- A layer as a table. -/
def Layer.toTable (layer : Layer) : Toml.Table :=
  Section.all.filterMap fun s => (layer.part? s).map fun part => (part.1, .table .header part.2)

theorem Layer.parse?_toToml (layer : Layer) : Toml.Table.parse? layer.toToml = some layer.toTable := by
  have hspells := @spells_toToml (layer.toToml.toList.length + 1) layer
  have hparts : (layer.parts.map Prod.fst).Nodup :=
    nodup_keys_filterMap Section.nodup_names fun s part hpart => by rw [← (part?_eq_some_iff.mp hpart).2]
  have hentries : ∀ part ∈ layer.parts, part.2.keys.Nodup := by
    intro part hpart
    obtain ⟨s, -, hs⟩ := List.mem_filterMap.mp hpart
    rw [← (part?_eq_some_iff.mp hs).2]
    exact nodup_keys_filterMap (nodup_names s) fst_of_written?
  rw [Toml.Table.parse?, hspells.dropMark]
  simp only [hspells.statements (Nat.lt_succ_self _)]
  rw [Option.bind_eq_bind, Option.bind_some, Toml.ofStatements?_document hparts hentries, Layer.parts,
    List.map_filterMap]
  rfl

theorem Layer.lookup_toTable (layer : Layer) (s : Section) :
    layer.toTable.lookup s.name = if layer.entries s = [] then none else some (.table .header (layer.entries s)) := by
  have hmem : s ∈ Section.all := by cases s <;> decide
  rw [Layer.toTable, lookup_filterMap Section.nodup_names ?_ hmem]
  · simp only [Layer.part?, List.isEmpty_iff]
    split <;> rfl
  · intro s p hp
    obtain ⟨part, hpart, rfl⟩ := Option.map_eq_some_iff.mp hp
    rw [← (part?_eq_some_iff.mp hpart).2]

theorem Layer.lookup_entries (layer : Layer) (f : Field) :
    (layer.entries f.inSection).lookup f.name = (layer f).map f.kind.item := by
  have hmem : f ∈ Field.ofSection f.inSection := List.mem_filter.mpr ⟨f.mem_all, beq_self_eq_true _⟩
  rw [Layer.entries, lookup_filterMap (nodup_names _) fst_of_written? hmem, Layer.written?, Option.map_map]
  rfl

/-- A layer says of a field in the file what it says of it itself. -/
theorem readField_toTable (layer : Layer) (f : Field) : readField layer.toTable f = some (layer f) := by
  have hentry := layer.lookup_entries f
  rw [readField, layer.lookup_toTable]
  split_ifs with hempty
  · rw [hempty] at hentry
    rw [Option.map_eq_none_iff.mp hentry.symm]
  · simp only [Section.item?, hentry]
    cases layer f with
    | none => rfl
    | some v => simp [Kind.ofItem?_item]

theorem ofTable?_toTable (layer : Layer) : ofTable? layer.toTable = some layer := by
  have hall : (Field.all.all fun f => (readField layer.toTable f).isSome) = true := by
    simp [readField_toTable]
  rw [ofTable?, if_pos hall]
  exact congrArg some (funext fun f => by rw [readField_toTable, Option.join_some])

theorem parse_toToml (layer : Layer) : parse layer.toToml = .ok (({} : Settings).overlay layer) := by
  rw [parse, parse?, layer.parse?_toToml, Option.bind_some, ofTable?_toTable]
  rfl

/-- The layer of some of the fields of settings. -/
def pick (s : Settings) (chosen : Field → Bool) : Layer := fun f =>
  if chosen f then some (s.get f) else none

/-- The fields that are written are read back, and the others have their defaults; all fields are read back together. -/
theorem reads_back_written (s : Settings) :
    (∀ chosen : Field → Bool, ∃ t, parse (s.pick chosen).toToml = .ok t
        ∧ ∀ f, t.get f = if chosen f then s.get f else ({} : Settings).get f)
      ∧ parse s.toToml = .ok s := by
  constructor
  · intro chosen
    refine ⟨_, parse_toToml _, fun f => ?_⟩
    rw [get_overlay, pick]
    split <;> rfl
  · rw [toToml, parse_toToml]
    exact congrArg Except.ok (ext_get fun f => get_overlay _ _ f)

end LogIntake.Settings
