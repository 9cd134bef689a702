import LogIntake.Toml.Text

/-!
# Writing strings in TOML

A string is written in the first of these forms that needs no escape: basic, literal, basic on several
lines, literal on several lines. A string for which none will do is written with escapes. In a basic string
a tab is always written as an escape. A string on several lines that holds a line end begins on a line of
its own.
-/

namespace LogIntake.Toml

/-- Whether a character is a control character other than tab and line feed. -/
def isControl (c : Char) : Bool :=
  c != '\t' && c != '\n' && (c.toNat < 0x20 || c.toNat == 0x7F)

/-- The length of the longest run of a character, where a run of length `run` has just been seen. -/
def longestRun (c : Char) (run : Nat) : List Char → Nat
  | [] => run
  | d :: rest => if d = c then longestRun c (run + 1) rest else max run (longestRun c 0 rest)

/-- The forms of strings. -/
inductive Form where
  | basic
  | literal
  | basicLines
  | literalLines
  deriving DecidableEq, Repr

/-- The form in which a string is written. -/
def Form.of (s : List Char) : Form :=
  let control := s.any isControl
  let escaped := s.contains '\\'
  let lines := s.contains '\n'
  let doubles := longestRun '"' 0 s
  let singles := longestRun '\'' 0 s
  if !control && !escaped && doubles == 0 && !lines then .basic
  else if !control && singles == 0 && !lines then .literal
  else if !control && !escaped && doubles ≤ 2 then .basicLines
  else if !control && singles ≤ 2 then .literalLines
  else if lines then .basicLines
  else .basic

/-- A digit in base sixteen. -/
def hexDigit (n : Nat) : Char :=
  if n < 10 then Char.ofNat ('0'.toNat + n) else Char.ofNat ('A'.toNat + (n - 10))

/-- The escape of a character that may not stand in a basic string, and nothing for others. -/
def escapeOf (c : Char) : Option (List Char) :=
  if c = '\x08' then some ['\\', 'b']
  else if c = '\t' then some ['\\', 't']
  else if c = '\n' then some ['\\', 'n']
  else if c = '\x0c' then some ['\\', 'f']
  else if c = '\x0d' then some ['\\', 'r']
  else if c = '"' then some ['\\', '"']
  else if c = '\\' then some ['\\', '\\']
  else if c.toNat < 0x20 || c.toNat == 0x7F then
    some ['\\', 'u', '0', '0', hexDigit (c.toNat / 16), hexDigit (c.toNat % 16)]
  else none

/-- The content of a basic string. -/
def escapeBasic (s : List Char) : List Char :=
  s.flatMap fun c => (escapeOf c).getD [c]

/-- The content of a basic string on several lines, after `quotes` quotes: line ends stay, and so do up to
two quotes in a row. -/
def escapeLines (quotes : Nat) : List Char → List Char
  | [] => []
  | c :: rest =>
    if c = '"' then
      if quotes < 2 then '"' :: escapeLines (quotes + 1) rest else '\\' :: '"' :: escapeLines 0 rest
    else if c = '\n' then '\n' :: escapeLines 0 rest
    else (escapeOf c).getD [c] ++ escapeLines 0 rest

/-- A line end at the beginning of a string that holds one. -/
def leadingLine (s : List Char) : List Char :=
  if s.contains '\n' then ['\n'] else []

/-- A string in a form. -/
def Form.write (s : List Char) : Form → List Char
  | .basic => '"' :: escapeBasic s ++ ['"']
  | .literal => '\'' :: s ++ ['\'']
  | .basicLines => ['"', '"', '"'] ++ leadingLine s ++ escapeLines 0 s ++ ['"', '"', '"']
  | .literalLines => ['\'', '\'', '\''] ++ leadingLine s ++ s ++ ['\'', '\'', '\'']

/-- A string as it is written in a document. -/
def writeString (s : String) : String :=
  String.ofList ((Form.of s.toList).write s.toList)

end LogIntake.Toml
