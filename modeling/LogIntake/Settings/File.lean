import LogIntake.Settings.Basic
import LogIntake.Toml.Reader
import LogIntake.Toml.Writer

/-!
# Settings files

A settings file is a TOML document with a table for each section. What a file does not mention keeps its
default, and what is no field is ignored, but a field must have a value of its kind. A section may also be
written as an array with the values of its fields in order.
-/

namespace LogIntake

namespace Settings

/-- The value of a kind that an item holds. -/
def Kind.ofItem? : (k : Kind) → Toml.Item → Option k.Value
  | .text, .scalar (.string s) => some s
  | .number w, .scalar (.integer n) => if 0 ≤ n then w.ofNat? n.toNat else none
  | .flag, .scalar (.boolean b) => some b
  | _, _ => none

/-- The item that a section has for a field; the whole answer is `none` if the section is no section. -/
def Section.item? (section_ : Toml.Item) (f : Field) : Option (Option Toml.Item) :=
  let place := (Field.ofSection f.inSection).idxOf f
  match section_ with
  | .table _ entries => some (entries.lookup f.name)
  | .array items => some items[place]?
  | .tables rows => some (rows[place]?.map (.table .header))
  | .scalar .dateTime => some none
  | .scalar _ => none

/-- What a document says of a field: nothing, or a value. The answer is `none` if it says something wrong. -/
def readField (table : Toml.Table) (f : Field) : Option (Option f.Value) :=
  match table.lookup f.inSection.name with
  | none => some none
  | some part =>
    match Section.item? part f with
    | none => none
    | some none => some none
    | some (some item) => (f.kind.ofItem? item).map some

/-- The values that a document gives, if all it says of fields is right. -/
def ofTable? (table : Toml.Table) : Option Layer :=
  if Field.all.all fun f => (readField table f).isSome then some fun f => (readField table f).join else none

/-- The settings that a text writes. -/
def parse? (text : String) : Option Settings :=
  ((Toml.Table.parse? text).bind ofTable?).map fun layer => overlay {} layer

/-! ## Writing -/

/-- A value of a kind as text. -/
def Kind.write : (k : Kind) → k.Value → String
  | .text, s => Toml.writeString s
  | .number w, n => toString (w.toNat n)
  | .flag, b => if b then "true" else "false"

/-- The line of a field. -/
def writeField (f : Field) (v : f.Value) : String :=
  f.name ++ " = " ++ f.kind.write v ++ "\n"

/-- A section with the fields that a layer has for it; nothing if it has none. -/
def writeSection (layer : Layer) (s : Section) : Option String :=
  let lines := (Field.ofSection s).filterMap fun f => (layer f).map (writeField f)
  if lines.isEmpty then none else some ("[" ++ s.name ++ "]\n" ++ String.join lines)

/-- The text of the fields that a layer has, with an empty line between sections. -/
def Layer.toToml (layer : Layer) : String :=
  "\n".intercalate (Section.all.filterMap (writeSection layer))

/-- All values of settings. -/
def toLayer (s : Settings) : Layer := fun f => some (s.get f)

/-- The text of all fields. -/
def toToml (s : Settings) : String :=
  s.toLayer.toToml

end Settings

end LogIntake
