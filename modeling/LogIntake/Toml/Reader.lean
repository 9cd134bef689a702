import LogIntake.Toml.Item
import LogIntake.Toml.Number
import LogIntake.Toml.Text

/-!
# Reading TOML

A document is read into statements, and the statements make a table. Arrays and inline tables may go over
several lines, may hold comments, and may end with a comma. They may be nested up to `maxDepth`. There are no
more items, entries or statements than characters, so the readers of lists take the size of the document as
a bound.
-/

namespace LogIntake.Toml

/-- How deep arrays and inline tables may be nested, and how many keys a path may have. -/
def maxDepth : Nat := 80

/-- Skips spaces, line ends and comments; `inComment` tells that a comment goes on. -/
def trivia (inComment : Bool) : List Char → List Char
  | [] => []
  | c :: rest =>
    if c = '\n' || beginsBreak c rest then trivia false rest
    else if inComment then
      if isPlain c then trivia true rest else c :: rest
    else if c = '#' then trivia true rest
    else if isSpace c then trivia false rest
    else c :: rest

/-- Skips a comment, if there is one. -/
def skipComment : List Char → List Char
  | '#' :: rest => rest.dropWhile isPlain
  | cs => cs

/-- Ends a line, or the document. -/
def lineEnd (cs : List Char) : Option (List Char) :=
  match skipComment (skipSpace cs) with
  | [] => some []
  | rest => lineBreak? rest

/-- Reads the items of an array up to its bracket, where `bound` is more than their number. -/
def items (read : List Char → Option (Item × List Char)) (bound : Nat) (cs : List Char) :
    Option (List Item × List Char) :=
  match bound with
  | 0 => none
  | n + 1 =>
    match trivia false cs with
    | ']' :: rest => some ([], rest)
    | inner =>
      match read inner with
      | none => none
      | some (item, rest) =>
        match trivia false rest with
        | ']' :: last => some ([item], last)
        | ',' :: more => (items read n more).map fun r => (item :: r.1, r.2)
        | _ => none

/-- Reads a key with the keys that lead to it. -/
def Path.read (cs : List Char) : Option (Path × List Char) :=
  (dottedKey maxDepth cs).map fun r => (⟨r.1, r.2.1⟩, r.2.2)

/-- Reads a key, an equals sign and an item, where `skip` drops what may stand around the sign. -/
def assignment (skip : List Char → List Char) (read : List Char → Option (Item × List Char))
    (cs : List Char) : Option (Path × Item × List Char) := do
  let (path, rest) ← Path.read cs
  let (item, rest) ← read (skip (← take '=' (skip rest)))
  return (path, item, rest)

/-- Adds the entries of an inline table up to its brace to a table, where `bound` is more than their number. -/
def entries (read : List Char → Option (Item × List Char)) (bound : Nat) (table : Table) (cs : List Char) :
    Option (Table × List Char) :=
  match bound with
  | 0 => none
  | n + 1 =>
    match trivia false cs with
    | '\x7d' :: rest => some (table, rest)
    | inner =>
      match assignment (trivia false) read inner with
      | none => none
      | some (path, item, rest) =>
        match table.assign path.front path.last item .inline with
        | none => none
        | some grown =>
          match trivia false rest with
          | '\x7d' :: last => some (grown, last)
          | ',' :: more => entries read n grown more
          | _ => none

/-- Reads an item with so many levels of nesting left, in a document with fewer than `bound` characters. -/
def item (bound depth : Nat) (cs : List Char) : Option (Item × List Char) :=
  match quoted cs with
  | some read => read.map fun r => (.scalar (.string (String.ofList r.1)), r.2)
  | none =>
    match depth, cs with
    | depth + 1, '[' :: rest => (items (item bound depth) bound rest).map fun r => (.array r.1, r.2)
    | depth + 1, '\x7b' :: rest => (entries (item bound depth) bound [] rest).map fun r => (.table .inline r.1, r.2)
    | _, _ => (unquoted? (atom cs).1).map fun s => (.scalar s, (atom cs).2)

/-- Reads a statement up to the end of its line. -/
def statement (bound : Nat) (cs : List Char) : Option (Statement × List Char) :=
  match cs with
  | '[' :: '[' :: rest => do
    let (path, rest) ← Path.read rest
    return (.rowHeader path, ← lineEnd (← take ']' (← take ']' rest)))
  | '[' :: rest => do
    let (path, rest) ← Path.read rest
    return (.header path, ← lineEnd (← take ']' rest))
  | _ => do
    let (path, read, rest) ← assignment skipSpace (item bound maxDepth) cs
    return (.entry path read, ← lineEnd rest)

/-- Reads all statements with a reader of one, where `bound` is more than their number. -/
def statements (read : List Char → Option (Statement × List Char)) (bound : Nat) (cs : List Char) :
    Option (List Statement) :=
  match bound with
  | 0 => none
  | n + 1 =>
    match trivia false cs with
    | [] => some []
    | inner =>
      match read inner with
      | none => none
      | some (s, rest) => (statements read n rest).map (s :: ·)

/-- Drops a byte order mark. -/
def dropMark : List Char → List Char
  | '\uFEFF' :: rest => rest
  | cs => cs

/-- The table that a text writes. -/
def Table.parse? (text : String) : Option Table :=
  let cs := dropMark text.toList
  let bound := cs.length + 1
  statements (statement bound) bound cs >>= Table.ofStatements?

end LogIntake.Toml
