import LogIntake.Bytes

/-!
# UTF-8

Reading bytes as text. `pieces` cuts a byte string into the characters it encodes and the maximal
ill-formed pieces between them, where a piece is as long as it could still have become a character.
Strict reading refuses such pieces, lossy reading replaces each by U+FFFD.
-/

namespace LogIntake.Utf8

/-- A byte between two bounds. -/
def within (lo hi b : UInt8) : Bool :=
  lo ≤ b && b ≤ hi

/-- The six low bits of a continuation byte. -/
def tail (b : UInt8) : Nat :=
  b.toNat % 64

/-- The bounds of the byte after a first byte of three, without overlong forms and surrogates. -/
def secondOfThree (first : UInt8) : UInt8 × UInt8 :=
  if first == 0xE0 then (0xA0, 0xBF) else if first == 0xED then (0x80, 0x9F) else (0x80, 0xBF)

/-- The bounds of the byte after a first byte of four, without overlong forms and beyond U+10FFFF. -/
def secondOfFour (first : UInt8) : UInt8 × UInt8 :=
  if first == 0xF0 then (0x90, 0xBF) else if first == 0xF4 then (0x80, 0x8F) else (0x80, 0xBF)

/-- The piece that starts with byte `first`: its character, if it is well formed, and how many of the
bytes after the first belong to it. -/
def piece (first : UInt8) (rest : Bytes) : Option Char × Nat :=
  if first < 0x80 then
    (some (Char.ofNat first.toNat), 0)
  else if within 0xC2 0xDF first then
    match rest with
    | b :: _ =>
      if within 0x80 0xBF b then (some (Char.ofNat ((first.toNat - 0xC0) * 64 + tail b)), 1) else (none, 0)
    | [] => (none, 0)
  else if within 0xE0 0xEF first then
    let (lo, hi) := secondOfThree first
    match rest with
    | b :: more =>
      if within lo hi b then
        match more with
        | c :: _ =>
          if within 0x80 0xBF c then
            (some (Char.ofNat ((first.toNat - 0xE0) * 4096 + tail b * 64 + tail c)), 2)
          else (none, 1)
        | [] => (none, 1)
      else (none, 0)
    | [] => (none, 0)
  else if within 0xF0 0xF4 first then
    let (lo, hi) := secondOfFour first
    match rest with
    | b :: more =>
      if within lo hi b then
        match more with
        | c :: last =>
          if within 0x80 0xBF c then
            match last with
            | d :: _ =>
              if within 0x80 0xBF d then
                (some (Char.ofNat ((first.toNat - 0xF0) * 262144 + tail b * 4096 + tail c * 64 + tail d)), 3)
              else (none, 2)
            | [] => (none, 2)
          else (none, 1)
        | [] => (none, 1)
      else (none, 0)
    | [] => (none, 0)
  else
    (none, 0)

/-- The characters of a byte string in order; `none` stands for a maximal ill-formed piece. -/
def pieces : Bytes → List (Option Char)
  | [] => []
  | first :: rest =>
    let (c, more) := piece first rest
    c :: pieces (rest.drop more)
  termination_by bytes => bytes.length
  decreasing_by simp only [List.length_drop, List.length_cons]; omega

/-- The text of a byte string, if all of it is well formed. -/
def decode? (bytes : Bytes) : Option String :=
  ((pieces bytes).mapM id).map String.ofList

/-- The text of a byte string, with U+FFFD for each ill-formed piece. -/
def lossy (bytes : Bytes) : String :=
  String.ofList ((pieces bytes).map (·.getD '\uFFFD'))

/-- The bytes that encode a text. -/
def encode (text : String) : Bytes :=
  text.toUTF8.toList

end LogIntake.Utf8
