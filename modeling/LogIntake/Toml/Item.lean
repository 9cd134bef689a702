/-!
# TOML documents

A document is a table. An entry of a table is a scalar, an array, a table, or an array of tables made by
headers. How a table came to be decides what may still be added to it: a header may complete a table that
only stood in the paths of other headers; dotted keys may extend what they made themselves and what only
stood in such paths, which is theirs from then on; and an inline table is closed.

Numbers with a fraction, dates and times are checked and not kept.
-/

namespace LogIntake.Toml

inductive Scalar where
  | string (s : String)
  | integer (n : Int)
  | boolean (b : Bool)
  | float
  | dateTime
  deriving DecidableEq, Repr

/-- How a table came to be. -/
inductive Origin where
  /-- By a header of its own. -/
  | header
  /-- As a step in the path of another header. -/
  | path
  /-- By a dotted key. -/
  | dotted
  | inline
  deriving DecidableEq, Repr

inductive Item where
  | scalar (s : Scalar)
  | array (items : List Item)
  | table (origin : Origin) (entries : List (String × Item))
  /-- An array of tables, one for each of its headers. -/
  | tables (rows : List (List (String × Item)))
  deriving Repr

/-- The entries of a table, in the order in which their keys first appear. -/
abbrev Table := List (String × Item)

namespace Table

/-- Replaces the item of a key. -/
def replace (table : Table) (key : String) (item : Item) : Table :=
  table.map fun entry => if entry.1 = key then (key, item) else entry

/-- Edits the table at the end of a path. Tables that are missing on the way are made. In a dotted key the
path may not lead into a table with a header of its own, and the tables on the way become dotted keys'; no
path leads into an inline table. -/
def within (dotted : Bool) (edit : Origin → Table → Option Table) :
    List String → Origin → Table → Option Table
  | [], origin, table => edit origin table
  | key :: rest, _, table =>
    match table.lookup key with
    | none =>
      let origin := if dotted then .dotted else .path
      (within dotted edit rest origin []).map fun inner => table ++ [(key, .table origin inner)]
    | some (.table origin inner) =>
      if origin = .inline ∨ (dotted ∧ origin = .header) then none
      else
        let origin := if dotted then .dotted else origin
        (within dotted edit rest origin inner).map fun edited => table.replace key (.table origin edited)
    | some (.tables rows) =>
      match rows.getLast? with
      | none => none
      | some row =>
        (within dotted edit rest .header row).map fun edited =>
          table.replace key (.tables (rows.dropLast ++ [edited]))
    | some _ => none

/-- Adds an entry under a new key. A dotted key adds only to a table made by dotted keys, a plain key only
to another table. -/
def add (dotted : Bool) (key : String) (item : Item) (origin : Origin) (table : Table) : Option Table :=
  if (origin == .dotted) != dotted then none
  else if (table.lookup key).isSome then none
  else some (table ++ [(key, item)])

/-- Adds an entry under a key with its path, as seen from a table. -/
def assign (path : List String) (key : String) (item : Item) (origin : Origin) (table : Table) : Option Table :=
  within true (add (!path.isEmpty) key item) path origin table

/-- Opens a table by its header. -/
def openTable (key : String) (_ : Origin) (table : Table) : Option Table :=
  match table.lookup key with
  | none => some (table ++ [(key, .table .header [])])
  | some (.table .path inner) => some (table.replace key (.table .header inner))
  | some _ => none

/-- Opens the next table of an array of tables. -/
def openRow (key : String) (_ : Origin) (table : Table) : Option Table :=
  match table.lookup key with
  | none => some (table ++ [(key, .tables [[]])])
  | some (.tables rows) => some (table.replace key (.tables (rows ++ [[]])))
  | some _ => none

end Table

/-! ## Statements -/

/-- A key with the keys that lead to it. -/
structure Path where
  front : List String
  last : String
  deriving DecidableEq, Repr

def Path.keys (p : Path) : List String := p.front ++ [p.last]

/-- What a line of a document says; an item may go over several lines. -/
inductive Statement where
  | header (path : Path)
  | rowHeader (path : Path)
  | entry (path : Path) (item : Item)
  deriving Repr

/-- A document that is being read: its entries, and the table to which the next entries belong. -/
structure Draft where
  table : Table
  current : List String

/-- Adds a statement to a document. -/
def Draft.add? (d : Draft) : Statement → Option Draft
  | .header p => (Table.within false (Table.openTable p.last) p.front .header d.table).map (⟨·, p.keys⟩)
  | .rowHeader p => (Table.within false (Table.openRow p.last) p.front .header d.table).map (⟨·, p.keys⟩)
  | .entry p item =>
    (Table.within false (Table.assign p.front p.last item) d.current .header d.table).map (⟨·, d.current⟩)

/-- The table that a list of statements makes. -/
def Table.ofStatements? (statements : List Statement) : Option Table :=
  (statements.foldlM Draft.add? ⟨[], []⟩).map Draft.table

end LogIntake.Toml
