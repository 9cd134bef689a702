import LogIntake.Text.Hexadecimal

/-!
# Strings and keys in TOML

There are four forms of strings: basic strings with escapes and literal strings without, each on one line
or on several lines. Every reader takes what it reads from the front and answers with the rest. A line ends
with a line feed, or with a carriage return and a line feed; a string on several lines keeps what it holds.
-/

namespace LogIntake.Toml

/-- Space and tab. -/
def isSpace (c : Char) : Bool := c == ' ' || c == '\t'

/-- What may stand unescaped in a string or a comment: all but control characters, and the tab. -/
def isPlain (c : Char) : Bool := c == '\t' || (0x20 ≤ c.toNat && c.toNat != 0x7F)

/-- Takes a line end away. -/
def lineBreak? : List Char → Option (List Char)
  | '\n' :: rest => some rest
  | '\r' :: '\n' :: rest => some rest
  | _ => none

/-- What a letter stands for after a backslash. -/
def letterEscape? : Char → Option Char
  | 'b' => some '\x08'
  | 't' => some '\t'
  | 'n' => some '\n'
  | 'f' => some '\x0c'
  | 'r' => some '\x0d'
  | 'e' => some '\x1b'
  | '"' => some '"'
  | '\\' => some '\\'
  | _ => none

/-- How many hexadecimal digits follow a letter after a backslash. -/
def hexLength? : Char → Option Nat
  | 'x' => some 2
  | 'u' => some 4
  | 'U' => some 8
  | _ => none

/-- Reads an escape after its backslash. -/
def escape : List Char → Option (Char × List Char)
  | [] => none
  | c :: rest =>
    match hexLength? c with
    | some n => if (rest.take n).length < n then none else (Hexadecimal.char? (rest.take n)).map (·, rest.drop n)
    | none => (letterEscape? c).map (·, rest)

theorem length_escape {cs rest : List Char} {c : Char} (h : escape cs = some (c, rest)) :
    rest.length < cs.length := by
  cases cs with
  | nil => simp [escape] at h
  | cons d more =>
      simp only [escape] at h
      split at h
      · split at h
        · simp at h
        · simp only [Option.map_eq_some_iff, Prod.mk.injEq] at h
          obtain ⟨_, _, _, rfl⟩ := h
          simp only [List.length_drop, List.length_cons]
          omega
      · simp only [Option.map_eq_some_iff, Prod.mk.injEq] at h
        obtain ⟨_, _, _, rfl⟩ := h
        simp

/-- Puts a character in front of what has been read. -/
def push (c : Char) (r : List Char × List Char) : List Char × List Char := (c :: r.1, r.2)

/-- The rest of a basic string up to its closing quote. -/
def basic : List Char → Option (List Char × List Char)
  | [] => none
  | c :: rest =>
    if c = '"' then some ([], rest)
    else if c = '\\' then
      match _h : escape rest with
      | none => none
      | some (d, more) => (basic more).map (push d)
    else if isPlain c then (basic rest).map (push c)
    else none
  termination_by cs => cs.length
  decreasing_by
    · have := length_escape _h
      simp only [List.length_cons]
      omega
    · simp

/-- The rest of a literal string up to its closing quote. -/
def literal : List Char → Option (List Char × List Char)
  | [] => none
  | c :: rest =>
    if c = '\'' then some ([], rest)
    else if isPlain c then (literal rest).map (push c)
    else none

/-- The end of a string on several lines after three quotes: up to two quotes more belong to the string. -/
def closing (quote : Char) : List Char → List Char × List Char
  | c :: d :: rest =>
    if c = quote then
      if d = quote then ([quote, quote], rest) else ([quote], d :: rest)
    else ([], c :: d :: rest)
  | [c] => if c = quote then ([quote], []) else ([], [c])
  | [] => ([], [])

/-- Whether two more quotes follow. -/
def twoMore (quote : Char) : List Char → Bool
  | c :: d :: _ => c == quote && d == quote
  | _ => false

/-- Whether a character is a carriage return with a line feed after it. -/
def beginsBreak (c : Char) (rest : List Char) : Bool :=
  c == '\r' && rest.head? == some '\n'

/-- Whether nothing but spaces stands before the next line end. -/
def endsLine (cs : List Char) : Bool :=
  (lineBreak? (cs.dropWhile isSpace)).isSome

/-- The rest of a basic string on several lines. After a backslash at the end of a line all spaces and line
ends are skipped: `skipping` tells that this goes on. -/
def basicLines (skipping : Bool) : List Char → Option (List Char × List Char)
  | [] => none
  | c :: rest =>
    if skipping && (isSpace c || c == '\n' || beginsBreak c rest) then basicLines true rest
    else if c = '"' then
      if twoMore '"' rest then some (closing '"' (rest.drop 2))
      else (basicLines false rest).map (push c)
    else if c = '\\' then
      if endsLine rest then basicLines true rest
      else
        match _h : escape rest with
        | none => none
        | some (d, more) => (basicLines false more).map (push d)
    else if c = '\n' || beginsBreak c rest || isPlain c then (basicLines false rest).map (push c)
    else none
  termination_by cs => cs.length
  decreasing_by
    · simp
    · simp
    · simp
    · have := length_escape _h
      simp only [List.length_cons]
      omega
    · simp

/-- The rest of a literal string on several lines. -/
def literalLines : List Char → Option (List Char × List Char)
  | [] => none
  | c :: rest =>
    if c = '\'' then
      if twoMore '\'' rest then some (closing '\'' (rest.drop 2))
      else (literalLines rest).map (push c)
    else if c = '\n' || beginsBreak c rest || isPlain c then (literalLines rest).map (push c)
    else none

/-- Drops a line end at the very beginning of a string on several lines. -/
def dropLineEnd (cs : List Char) : List Char :=
  (lineBreak? cs).getD cs

/-- Reads a string of any form; `none` where no string begins. -/
def quoted (cs : List Char) : Option (Option (List Char × List Char)) :=
  match cs with
  | '"' :: rest =>
    some (if twoMore '"' rest then basicLines false (dropLineEnd (rest.drop 2)) else basic rest)
  | '\'' :: rest =>
    some (if twoMore '\'' rest then literalLines (dropLineEnd (rest.drop 2)) else literal rest)
  | _ => none

/-! ## Keys -/

def isBare (c : Char) : Bool :=
  c.isAlphanum || c == '_' || c == '-'

/-- Reads a key without its path. -/
def simpleKey (cs : List Char) : Option (String × List Char) :=
  match cs with
  | '"' :: rest => (basic rest).map fun r => (String.ofList r.1, r.2)
  | '\'' :: rest => (literal rest).map fun r => (String.ofList r.1, r.2)
  | _ =>
    let bare := cs.takeWhile isBare
    if bare.isEmpty then none else some (String.ofList bare, cs.dropWhile isBare)

def skipSpace (cs : List Char) : List Char := cs.dropWhile isSpace

/-- Reads a key with fewer than `bound` keys before it, which end with dots; spaces may stand around a dot. -/
def dottedKey (bound : Nat) (cs : List Char) : Option (List String × String × List Char) :=
  match bound, simpleKey (skipSpace cs) with
  | n + 1, some (key, rest) =>
    match skipSpace rest with
    | '.' :: more => (dottedKey n more).map fun r => (key :: r.1, r.2)
    | other => some ([], key, other)
  | _, _ => none

end LogIntake.Toml
