import LogIntake.Text.Blank
import LogIntake.Text.Hexadecimal
import LogIntake.Text.Letter

/-!
# Patterns in log filters

A filter may compare a field of a span with a pattern: a regular expression in the usual notation, with
groups, flags, sets in brackets and repetitions. A line that stands in no span meets no pattern, so patterns
are only checked here: a filter with a malformed one is refused. A field ends at its first closing brace, so
nothing that needs a closing brace can stand in a pattern. Nor may anything that takes tables of Unicode:
classes such as `\d`, word boundaries, and letters of either case, unless the pattern keeps to ASCII.
-/

namespace LogIntake.LogFilter

namespace Pattern

/-- How a pattern is read from some place on. -/
structure Mode where
  /-- Whether white space and comments do not count. -/
  spaced : Bool := false
  /-- Whether letters match in either case. -/
  anyCase : Bool := false
  /-- Whether sets and classes are about all of Unicode, not only ASCII. -/
  unicode : Bool := true
  deriving DecidableEq, Repr

namespace Mode

/-- Whether letters are compared in a way that takes tables. -/
def folds (m : Mode) : Bool := m.anyCase && m.unicode

/-- Skips white space and comments where they do not count; `inComment` tells that a comment goes on. -/
def skip (m : Mode) (inComment : Bool) : List Char → List Char
  | [] => []
  | c :: rest =>
    if !m.spaced then c :: rest
    else if inComment then m.skip (c != '\n') rest
    else if Text.isBlank c then m.skip false rest
    else if c = '#' then m.skip true rest
    else c :: rest

end Mode

/-! ## Elements -/

/-- What one element of a pattern stands for. -/
inductive Element where
  | char (c : Char)
  | set
  /-- A place between two characters. -/
  | place
  deriving DecidableEq, Repr

/-- The control character that a letter stands for after a backslash. -/
def control? : Char → Option Char
  | 'a' => some '\x07'
  | 'f' => some '\x0c'
  | 't' => some '\t'
  | 'n' => some '\n'
  | 'r' => some '\x0d'
  | 'v' => some '\x0b'
  | _ => none

/-- Whether a character stands for itself after a backslash. -/
def isEscapable (c : Char) : Bool :=
  c.toNat < 0x80 && !c.isAlphanum && c != '<' && c != '>'

namespace Mode

/-- Reads a character by so many hexadecimal digits, after those that have been read. -/
def hexadecimal (m : Mode) : Nat → List Char → List Char → Option (Char × List Char)
  | 0, digits, cs => (Hexadecimal.char? digits).map (·, cs)
  | n + 1, digits, cs =>
    match m.skip false cs with
    | [] => none
    | c :: rest => m.hexadecimal n (digits ++ [c]) rest

/-- Reads an escape after its backslash. -/
def escape (m : Mode) : List Char → Option (Element × List Char)
  | [] => none
  | c :: rest =>
    match c with
    | 'x' => ((m.hexadecimal 2 [] rest).filter fun r => m.unicode || r.1.toNat < 0x80).map (Prod.map .char id)
    | 'u' => (m.hexadecimal 4 [] rest).map (Prod.map .char id)
    | 'U' => (m.hexadecimal 8 [] rest).map (Prod.map .char id)
    | 'd' | 's' | 'w' => if m.unicode then none else some (.set, rest)
    | 'b' => if m.unicode || rest.head? == some '\x7b' then none else some (.place, rest)
    | 'B' | '<' | '>' => if m.unicode then none else some (.place, rest)
    | 'A' | 'z' => some (.place, rest)
    | _ => if isEscapable c then some (.char c, rest) else (control? c).map fun d => (.char d, rest)

/-- Reads an element of a set. -/
def member (m : Mode) (cs : List Char) : Option (Element × List Char) :=
  let read := match cs with
    | [] => none
    | '\\' :: rest => m.escape rest
    | c :: rest => some (.char c, rest)
  read.filter fun r =>
    match r.1 with
    | .char c => m.unicode || c.toNat < 0x80
    | .set => true
    | .place => false

/-! ## Sets -/

/-- Reads a member of a set, or a range of characters. -/
def range (m : Mode) (cs : List Char) : Option (List Char) :=
  match m.member cs with
  | none => none
  | some (first, rest) =>
    match m.skip false rest with
    | '-' :: more =>
      match m.skip false more with
      | ']' :: _ => some ('-' :: more)
      | '-' :: _ => some ('-' :: more)
      | other =>
        match first, m.member other with
        | .char a, some (.char b, last) => if a ≤ b then some last else none
        | _, _ => none
    | other => some other

/-- The hyphens at the beginning of a set. -/
def hyphens (m : Mode) (cs : List Char) : List Char :=
  match m.skip false cs with
  | '-' :: rest => if rest.length < cs.length then m.hyphens rest else rest
  | other => other
  termination_by cs.length

/-- The beginning of a set after its bracket: a bracket that closes stands for itself in the first place. -/
def opening (m : Mode) (cs : List Char) : Option (List Char) :=
  let (negated, members) := match m.skip false cs with
    | '^' :: rest => (true, m.skip false rest)
    | other => (false, other)
  if negated && !m.unicode then none
  else
    match members with
    | ']' :: rest => some rest
    | other => some (m.hyphens other)

end Mode

/-- The names of sets of ASCII characters. -/
def asciiSets : List String :=
  ["alnum", "alpha", "ascii", "blank", "cntrl", "digit", "graph", "lower", "print", "punct", "space", "upper",
    "word", "xdigit"]

/-- Reads a named set of ASCII characters after its bracket, and whether it is negated. -/
def asciiSet? : List Char → Option (Bool × List Char)
  | ':' :: rest =>
    let (negated, name) := match rest with
      | '^' :: more => (true, more)
      | _ => (false, rest)
    match name.dropWhile (· != ':') with
    | ':' :: ']' :: last =>
      if asciiSets.contains (String.ofList (name.takeWhile (· != ':'))) then some (negated, last) else none
    | _ => none
  | _ => none

/-- Whether a character makes an operator between sets when it is doubled. -/
def isSetOperator (c : Char) : Bool := c == '&' || c == '-' || c == '~'

namespace Mode

/-- Reads one thing within sets that are nested to a depth, and gives the depth after it. -/
def setPart (m : Mode) (depth : Nat) : List Char → Option (Nat × List Char)
  | [] => none
  | c :: rest =>
    if c = '[' then
      match asciiSet? rest with
      | some (negated, more) => if negated && !m.unicode then none else some (depth, more)
      | none => (m.opening rest).map (depth + 1, ·)
    else if c = ']' then some (depth - 1, rest)
    else if isSetOperator c && rest.head? == some c then some (depth, rest.drop 1)
    else (m.range (c :: rest)).map (depth, ·)

/-- Reads up to the end of the outermost set. -/
def setEnd (m : Mode) (depth : Nat) (cs : List Char) : Option (List Char) :=
  match m.setPart depth (m.skip false cs) with
  | none => none
  | some (0, rest) => some rest
  | some (depth, rest) => if rest.length < cs.length then m.setEnd depth rest else none
  termination_by cs.length

/-- Reads a set after its bracket. -/
def set (m : Mode) (cs : List Char) : Option (List Char) :=
  if m.folds then none else m.opening cs >>= m.setEnd 1

/-! ## Groups -/

/-- Sets or clears a flag. -/
def withFlag (m : Mode) (flag : Char) (on : Bool) : Mode :=
  match flag with
  | 'x' => { m with spaced := on }
  | 'i' => { m with anyCase := on }
  | 'u' => { m with unicode := on }
  | _ => m

/-- Reads flags, none of them twice, up to a colon or the end of their group; a hyphen clears those after it.
`seen` holds the flags before, from the last. -/
def flags (m : Mode) (seen : List Char) : List Char → Option (Mode × List Char)
  | [] => none
  | c :: rest =>
    if c = ':' then if seen.head? == some '-' then none else some (m, c :: rest)
    else if c = ')' then if seen.isEmpty || seen.head? == some '-' then none else some (m, c :: rest)
    else if ['-', 'i', 'm', 's', 'U', 'u', 'R', 'x'].contains c && !seen.contains c then
      (m.withFlag c !seen.contains '-').flags (c :: seen) rest
    else none

end Mode

/-- Whether a character may stand in the name of a group. -/
def isNameChar (first : Bool) (c : Char) : Bool :=
  c == '_' || (if first then Text.isLetter c else Text.isLetterOrNumber c || ['.', '[', ']'].contains c)

/-! ## Patterns -/

/-- How far a pattern has been read. -/
structure Progress where
  mode : Mode := {}
  /-- The modes around the groups that are open, from the innermost. -/
  outer : List Mode := []
  /-- The names of groups. -/
  names : List (List Char) := []
  /-- Whether there is something that a repetition can repeat. -/
  repeatable : Bool := false
  deriving DecidableEq, Repr

namespace Progress

/-- Something that can be repeated has been read. -/
def item (p : Progress) : Progress := { p with repeatable := true }

/-- A group has begun, with a mode of its own. -/
def enter (p : Progress) (mode : Mode) : Progress :=
  { p with mode, outer := p.mode :: p.outer, repeatable := false }

/-- Reads the name of a group up to its angle bracket. -/
def named (p : Progress) (cs : List Char) : Option (Progress × List Char) :=
  let name := cs.takeWhile (· != '>')
  match name, cs.dropWhile (· != '>') with
  | first :: others, '>' :: rest =>
    if isNameChar true first && others.all (isNameChar false) && !p.names.contains name then
      some ({ p.enter p.mode with names := name :: p.names }, rest)
    else none
  | _, _ => none

/-- Reads the beginning of a group after its parenthesis, or flags for the rest of the group around. -/
def group (p : Progress) (cs : List Char) : Option (Progress × List Char) :=
  match p.mode.skip false cs with
  | '?' :: 'P' :: '<' :: rest => p.named rest
  | '?' :: '<' :: rest => p.named rest
  | '?' :: rest =>
    match p.mode.flags [] rest with
    | some (mode, ':' :: more) => some (p.enter mode, more)
    | some (mode, _ :: more) => some ({ p with mode, repeatable := false }, more)
    | _ => none
  | rest => some (p.enter p.mode, rest)

/-- Reads the next part of a pattern. -/
def step (p : Progress) (c : Char) (rest : List Char) : Option (Progress × List Char) :=
  match c with
  | '(' => p.group rest
  | ')' =>
    match p.outer with
    | [] => none
    | mode :: outer => some ({ p with mode, outer, repeatable := true }, rest)
  | '|' => some ({ p with repeatable := false }, rest)
  | '?' | '*' | '+' =>
    if p.repeatable then some (p, if rest.head? == some '?' then rest.drop 1 else rest) else none
  | '\x7b' => none
  | '[' => (p.mode.set rest).map (p.item, ·)
  | '.' => if p.mode.unicode then some (p.item, rest) else none
  | '^' | '$' => some (p.item, rest)
  | '\\' =>
    match p.mode.escape rest with
    | some (.char _, more) => if p.mode.folds then none else some (p.item, more)
    | some (_, more) => some (p.item, more)
    | none => none
  | _ => if p.mode.folds then none else some (p.item, rest)

/-- Whether the rest of a pattern is well formed. -/
def completes (p : Progress) (cs : List Char) : Bool :=
  match p.mode.skip false cs with
  | [] => p.outer.isEmpty
  | c :: more =>
    match p.step c more with
    | some (next, rest) => if rest.length < cs.length then next.completes rest else false
    | none => false
  termination_by cs.length

end Progress

end Pattern

/-- Whether a text is a well-formed pattern. -/
def isPattern (cs : List Char) : Bool :=
  Pattern.Progress.completes {} cs

/-! ## Numbers -/

/-- Whether an exponent is all that there is. -/
def isExponent : List Char → Bool
  | c :: rest =>
    let digits := match rest with
      | '+' :: more => more
      | '-' :: more => more
      | _ => rest
    (c == 'e' || c == 'E') && !digits.isEmpty && digits.all Char.isDigit
  | [] => false

/-- Whether a text writes a number, which may be infinite or none at all, without a sign. -/
def isUnsigned (cs : List Char) : Bool :=
  let whole := cs.takeWhile Char.isDigit
  let (fraction, rest) := match cs.dropWhile Char.isDigit with
    | '.' :: more => (more.takeWhile Char.isDigit, more.dropWhile Char.isDigit)
    | other => ([], other)
  ["inf", "infinity", "nan"].contains (String.ofList (cs.map Char.toLower))
    || (!(whole ++ fraction).isEmpty && (rest.isEmpty || isExponent rest))

/-- Whether a field of a span can be compared with a text: it is a number or a pattern. A number that has no
plus sign is also a pattern. -/
def isFieldValue (cs : List Char) : Bool :=
  isPattern cs || (cs.head? == some '+' && isUnsigned (cs.drop 1))

end LogIntake.LogFilter
