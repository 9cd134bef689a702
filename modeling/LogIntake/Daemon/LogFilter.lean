import LogIntake.Daemon.Error
import LogIntake.Daemon.LogFilter.Pattern
import LogIntake.Log
import LogIntake.Settings.Validation
import LogIntake.Text.Numeral
import LogIntake.Text.Utf8

/-!
# Which log lines are written

A filter is a list of directives with commas between them: a level for everything, or a target with a level
of its own. A line is written if the directive with the longest target that its own target begins with
allows its level; of two directives with one target the later counts. A directive may also name a span in
brackets; it concerns only lines within spans.
-/

namespace LogIntake.LogFilter

/-- The least severe level that is written; `none` writes nothing. -/
abbrev Threshold := Option LogLevel

/-- Whether a text is a word in letters of either case. -/
def isWord (word text : String) : Bool :=
  text.toList.map Char.toLower == word.toList

/-- The threshold that a text names. -/
def threshold? (text : String) : Option Threshold :=
  match Numeral.parse UInt64.size text with
  | .ok 0 => some none
  | .ok 1 => some (some .error)
  | .ok 2 => some (some .warn)
  | .ok 3 => some (some .info)
  | .ok 4 => some (some .debug)
  | .ok 5 => some (some .trace)
  | _ =>
    if text.isEmpty || isWord "error" text then some (some .error)
    else if isWord "warn" text then some (some .warn)
    else if isWord "info" text then some (some .info)
    else if isWord "debug" text then some (some .debug)
    else if isWord "trace" text then some (some .trace)
    else if isWord "off" text then some none
    else none

/-- A directive: the target it is for, whether it names a span, and its threshold. -/
structure Directive where
  target : Option String
  inSpan : Bool
  threshold : Threshold
  deriving DecidableEq, Repr

/-! ## Reading directives

Blanks around a directive do not count when its form is told. Yet its parts are cut out of the whole text,
at the positions that they have without the blanks in front. So a directive for a target is best written
without them. -/

/-- The part of a text between two byte positions; `none` if one of them is within a character. -/
def part? (text : String) (start stop : Nat) : Option String :=
  Utf8.decode? (((Utf8.encode text).drop start).take (stop - start))

/-- The threshold that the end of a text names; none at all stands for everything. -/
def level? (text : String) (start : Nat) : Option Threshold :=
  (part? text start text.utf8ByteSize).bind fun name => if name.isEmpty then some (some .trace) else threshold? name

/-- Whether a field of a span is well formed: a name, and then perhaps an equals sign and a value. What
follows a second equals sign does not count. -/
def isField (text : String) : Bool :=
  let rest := text.toList.dropWhile (· != '=')
  !text.isEmpty && isFieldValue ((rest.drop 1).takeWhile (· != '='))

/-- Reads a directive after the closing bracket of its span, at a position in its text. -/
def afterSpan (text : String) (target : Option String) (position : Nat) : List Char → Option Directive
  | [] => some ⟨target, true, some .trace⟩
  | '=' :: _ => (level? text (position + 1)).map fun t => ⟨target, true, t⟩
  | _ => none

/-- Reads the only field of a span from its beginning up to its brace. -/
def field (text : String) (target : Option String) (start position : Nat) : List Char → Option Directive
  | [] => none
  | c :: rest =>
    if c = '\x7d' then
      match rest with
      | ']' :: more =>
        if (part? text start position).any isField then afterSpan text target (position + 2) more else none
      | _ => none
    else field text target start (position + c.utf8Size) rest

/-- Reads a span after its opening bracket. -/
def span (text : String) (target : Option String) (position : Nat) : List Char → Option Directive
  | [] => none
  | c :: rest =>
    if c = ']' then afterSpan text target (position + 1) rest
    else if c = '\x7b' then field text target (position + 1) (position + 1) rest
    else span text target (position + c.utf8Size) rest

/-- Reads a directive that begins with a target or a level. -/
def targetOrLevel (text : String) (position : Nat) : List Char → Option Directive
  | [] =>
    match threshold? text with
    | some t => some ⟨none, false, t⟩
    | none => some ⟨some text, false, some .trace⟩
  | c :: rest =>
    if c = '=' then do
      return ⟨← part? text 0 position, false, ← level? text (position + 1)⟩
    else if c = '[' then
      (part? text 0 position).bind fun target => span text target (position + 1) rest
    else targetOrLevel text (position + c.utf8Size) rest

/-- Whether a target or a level can begin with a character. -/
def begins (c : Char) : Bool :=
  c == '-' || c == ':' || c == '_' || Text.isLetterOrNumber c

/-- Drops the white space around a text. -/
def trim (cs : List Char) : List Char :=
  ((cs.dropWhile Text.isBlank).reverse.dropWhile Text.isBlank).reverse

def Directive.parse? (text : String) : Option Directive :=
  match trim text.toList with
  | [] => none
  | c :: rest =>
    if c = '[' then span text none 1 rest
    else if begins c then targetOrLevel text 0 (c :: rest)
    else none

end LogFilter

/-- The directives of a filter. -/
structure LogFilter where
  directives : List LogFilter.Directive
  deriving DecidableEq, Repr

namespace LogFilter

/-- The filter that a text writes. Without any directive only errors are written. -/
def parse? (text : String) : Option LogFilter :=
  let parts := (text.splitOn ",").filter (!·.isEmpty)
  (parts.mapM Directive.parse?).map fun directives =>
    ⟨if directives.isEmpty then [⟨none, false, some .error⟩] else directives⟩

/-- The better of two directives for a target: the one with the longer target, or the later. -/
def better (first second : Directive) : Directive :=
  if (first.target.getD "").length ≤ (second.target.getD "").length then second else first

/-- The directive that decides about a target. -/
def directive? (f : LogFilter) (target : String) : Option Directive :=
  (f.directives.filter fun d => !d.inSpan && (d.target.getD "").toList.isPrefixOf target.toList).foldl
    (fun best d => some (best.elim d (better · d))) none

/-- Whether a line of a target is written. -/
def allows (f : LogFilter) (target : String) (level : LogLevel) : Bool :=
  match (f.directive? target).bind Directive.threshold with
  | some least => least.severity ≤ level.severity
  | none => false

/-- The filter for the settings; a filter in the environment comes first, if it can be read. -/
def ofSettings (override : Option String) (s : Settings.General) : Except DaemonError LogFilter :=
  if !Settings.logFormats.contains s.logFormat then .error (.logFormat s.logFormat)
  else
    match (override.bind parse?).or (parse? s.logLevel) with
    | some filter => .ok filter
    | none => .error (.logLevel s.logLevel)

end LogFilter

end LogIntake
