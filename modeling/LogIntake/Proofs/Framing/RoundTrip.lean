import LogIntake.Proofs.Framing.Fresh
import Mathlib.Data.List.TakeWhile
import Mathlib.Data.Nat.Digits.Lemmas

/-!
# What is written is read

A sender writes payloads, each in the form that its framing gives it, and other bytes in between. Whatever the
payloads hold that the framing can carry, and in whatever pieces the stream comes, a decoder hands out these
payloads and a report for what stood in between, and then is as good as new (`read_written`). In each framing
one unit with what stands before it is whole (`whole_unit`), and the theorem follows by appending.
-/

namespace LogIntake

/-- What is handed out for a payload. -/
def Frame.ofPayload (limit : Nat) (payload : Bytes) : Frame :=
  if payload.length ≤ limit then .record payload else .malformed (.oversized payload.length limit)

/-! ## Tagged records -/

namespace Tagged

theorem unbordered_openTag : Bytes.Unbordered openTag := by decide

theorem unbordered_closeTag : Bytes.Unbordered closeTag := by decide

/-- An open tag ends what stands before it, even if that ends with a part of one. -/
theorem parse_opened {run : Bytes} (h : Bytes.indexOf? openTag (run.dropWhile Bytes.isBlank) = none)
    (limit start : Nat) (more : Bytes) :
    (parse limit start (run ++ (openTag ++ more))).Yields
      ((unframed (run.dropWhile Bytes.isBlank).length).toList.map .malformed)
      fun start => inside limit start 0 more := by
  have hfound := Bytes.indexOf?_append_self openTag_ne_nil unbordered_openTag h []
  rw [parse_eq, Bytes.dropWhile_append_front rfl]
  generalize start + _ = start
  generalize run.dropWhile Bytes.isBlank = junk at hfound
  have hyields := outside_of_indexOf? hfound limit start 0 more
  rw [List.append_nil] at hyields
  rwa [Nat.zero_add, ← List.length_append, List.drop_length, List.append_assoc] at hyields

/-- A close tag ends a payload, even if that ends with a part of one. -/
theorem inside_closed {payload : Bytes} (h : ¬ closeTag <:+: payload) (limit start : Nat) (more : Bytes) :
    (inside limit start 0 (payload ++ (closeTag ++ more))).Yields [.ofPayload limit payload]
      fun start => parse limit start more := by
  rw [← Bytes.indexOf?_eq_none_iff_not_isInfix closeTag_ne_nil] at h
  have hfound := Bytes.indexOf?_append_self closeTag_ne_nil unbordered_closeTag h []
  have hyields := inside_of_indexOf? hfound limit start 0 more
  rw [List.append_nil] at hyields
  rwa [Nat.zero_add, List.take_left, ← List.length_append, List.drop_length, List.append_assoc] at hyields

end Tagged

/-! ## Lines -/

namespace Newline

theorem findIdx?_line {line : Bytes} (h : 10 ∉ line) (more : Bytes) :
    (line ++ 10 :: more).findIdx? isLineFeed = some line.length := by
  have hnone : line.findIdx? isLineFeed = none := by
    rw [List.findIdx?_eq_none_iff]
    intro b hb
    have hne : b ≠ 10 := fun heq => h (heq ▸ hb)
    simpa [isLineFeed] using hne
  rw [findIdx?_append_of_none hnone]
  rfl

/-- A carriage return is blank, so without one at its end a line is as blank as before. -/
theorem all_trimReturn (line : Bytes) : (trimReturn line).all Bytes.isBlank = line.all Bytes.isBlank := by
  rcases List.eq_nil_or_concat' line with rfl | ⟨front, b, rfl⟩
  · rfl
  · unfold trimReturn
    split
    · next h =>
        obtain rfl : b = 13 := by simpa [endsWithReturn, isReturn] using h
        have hblank : Bytes.isBlank 13 = true := rfl
        simp [hblank]
    · rfl

theorem parse_line {line : Bytes} (h : 10 ∉ line) (limit start : Nat) (more : Bytes) :
    (parse limit start (line ++ 10 :: more)).Yields (lineFrame limit line).toList
      fun start => parse limit start more := by
  have hyields := yields_of_findIdx? (findIdx?_line h []) limit start more
  rw [List.take_left, List.drop_eq_nil_of_le (by simp), List.append_assoc] at hyields
  exact hyields

theorem lineFrame_eq {line : Bytes} (h : ∃ b ∈ line, Bytes.isBlank b = false) (limit : Nat) :
    lineFrame limit line = some (.ofPayload limit (trimReturn line)) := by
  have hall : ¬ (trimReturn line).all Bytes.isBlank = true := by
    rw [all_trimReturn, Bool.not_eq_true, List.all_eq_false]
    obtain ⟨b, hb, hblank⟩ := h
    exact ⟨b, hb, by simp [hblank]⟩
  rcases Nat.lt_or_ge limit (trimReturn line).length with hlong | hshort
  · rw [lineFrame, if_pos hlong, Frame.ofPayload, if_neg (Nat.not_le_of_lt hlong)]
  · rw [lineFrame, if_neg (Nat.not_lt_of_ge hshort), if_neg hall, Frame.ofPayload, if_pos hshort]

end Newline

/-! ## Counted records -/

namespace OctetCounting

def digit (d : Nat) : UInt8 :=
  UInt8.ofNat (48 + d)

/-- A length as it is written. -/
def lengthDigits (n : Nat) : Bytes :=
  (Nat.digits 10 n).reverse.map digit

theorem toNat_digit {d : Nat} (h : d < 10) : (digit d).toNat = 48 + d := by
  rw [digit, UInt8.toNat_ofNat']
  omega

theorem isDigit_digit {d : Nat} (h : d < 10) : Bytes.isDigit (digit d) = true := by
  have hnat := toNat_digit h
  simp only [Bytes.isDigit, Bool.and_eq_true, decide_eq_true_eq, UInt8.le_iff_toNat_le, hnat]
  exact ⟨Nat.le_add_right 48 d, Nat.add_le_add_left (Nat.le_of_lt_succ h) 48⟩

theorem not_isBlank_of_isDigit {b : UInt8} (h : Bytes.isDigit b = true) : Bytes.isBlank b = false := by
  refine Bool.eq_false_iff.mpr fun hblank => ?_
  simp only [Bytes.isBlank, Bool.or_eq_true, beq_iff_eq] at hblank
  rcases hblank with (((rfl | rfl) | rfl) | rfl) | rfl <;> cases h

theorem isDigit_of_mem_lengthDigits {n : Nat} {b : UInt8} (h : b ∈ lengthDigits n) : Bytes.isDigit b = true := by
  obtain ⟨d, hd, rfl⟩ := List.mem_map.mp h
  exact isDigit_digit (Nat.digits_lt_base (by decide) (List.mem_reverse.mp hd))

theorem length_lengthDigits_le {n : Nat} (h : n ≤ 9999999999) : (lengthDigits n).length ≤ maxDigits := by
  rw [lengthDigits, List.length_map, List.length_reverse]
  exact (Nat.digits_length_le_iff (by decide) n).mpr (Nat.lt_of_le_of_lt h (by decide))

theorem decimal_concat (digits : Bytes) (b : UInt8) :
    Bytes.decimal (digits ++ [b]) = 10 * Bytes.decimal digits + (b.toNat - 48) := by
  rw [Bytes.decimal, List.foldl_append]
  rfl

theorem decimal_map_digit {ds : List Nat} (h : ∀ d ∈ ds, d < 10) :
    Bytes.decimal (ds.reverse.map digit) = Nat.ofDigits 10 ds := by
  induction ds with
  | nil => rfl
  | cons d ds ih =>
      have hd := toNat_digit (h d List.mem_cons_self)
      have hds := ih fun e he => h e (List.mem_cons_of_mem d he)
      rw [List.reverse_cons, List.map_append, List.map_singleton, decimal_concat, hds, hd, Nat.ofDigits_cons]
      omega

theorem decimal_lengthDigits (n : Nat) : Bytes.decimal (lengthDigits n) = n := by
  rw [lengthDigits, decimal_map_digit fun d hd => Nat.digits_lt_base (by decide) hd, Nat.ofDigits_digits]

theorem head?_lengthDigits {n : Nat} (h : 0 < n) : ∃ b, (lengthDigits n).head? = some b ∧ b ≠ 48 := by
  have hne : Nat.digits 10 n ≠ [] := Nat.digits_ne_nil_iff_ne_zero.mpr (Nat.ne_of_gt h)
  have hlast := Nat.getLast_digit_ne_zero 10 (Nat.ne_of_gt h)
  have hlt := Nat.digits_lt_base (by decide) (List.getLast_mem hne)
  refine ⟨digit ((Nat.digits 10 n).getLast hne), ?_, fun hzero => hlast ?_⟩
  · rw [lengthDigits, List.head?_map, List.head?_reverse, List.getLast?_eq_some_getLast hne]
    rfl
  · have hnat := toNat_digit hlt
    rw [hzero] at hnat
    have h48 : (48 : UInt8).toNat = 48 := rfl
    omega

theorem beforeSpace_header (n : Nat) (more : Bytes) : beforeSpace (lengthDigits n ++ 32 :: more) = lengthDigits n := by
  have hall : ∀ b ∈ lengthDigits n, (!isSpace b) = true := by
    intro b hb
    have hdigit := isDigit_of_mem_lengthDigits hb
    rw [Bool.not_eq_true', isSpace]
    refine Bool.eq_false_iff.mpr fun hspace => ?_
    rw [eq_of_beq hspace] at hdigit
    cases hdigit
  rw [beforeSpace, List.takeWhile_append_of_pos hall]
  exact List.append_nil _

theorem not_badLength_header {n : Nat} (hpos : 0 < n) (hle : n ≤ 9999999999) (more : Bytes) :
    ¬ BadLength (lengthDigits n ++ 32 :: more) := by
  obtain ⟨b, hhead, hzero⟩ := head?_lengthDigits hpos
  rw [BadLength, beforeSpace_header, List.head?_append, hhead, Option.some_or]
  rintro (⟨c, hc, hdigit⟩ | ⟨heq, -⟩ | hlong)
  · rw [isDigit_of_mem_lengthDigits hc] at hdigit
    cases hdigit
  · exact hzero (Option.some.inj heq)
  · exact absurd (length_lengthDigits_le hle) (Nat.not_le_of_lt hlong)

theorem dropWhile_header {n : Nat} (hpos : 0 < n) (more : Bytes) :
    (lengthDigits n ++ more).dropWhile Bytes.isBlank = lengthDigits n ++ more := by
  obtain ⟨b, hhead, -⟩ := head?_lengthDigits hpos
  obtain ⟨rest, hdigits⟩ := List.head?_eq_some_iff.mp hhead
  have hdigit := isDigit_of_mem_lengthDigits (n := n) (b := b) (by rw [hdigits]; exact List.mem_cons_self)
  rw [hdigits, List.cons_append, List.dropWhile_cons_of_neg (by simp [not_isBlank_of_isDigit hdigit])]

/-- A length and as many bytes are one record. -/
theorem parse_counted {payload : Bytes} (hpos : 0 < payload.length) (hle : payload.length ≤ 9999999999)
    (limit start : Nat) (more : Bytes) :
    (parse limit start (lengthDigits payload.length ++ 32 :: (payload ++ more))).Yields [.ofPayload limit payload]
      fun start => parse limit start more := by
  have hlt : (beforeSpace (lengthDigits payload.length ++ [32])).length
      < (lengthDigits payload.length ++ [32]).length := by
    rw [beforeSpace_header, List.length_append]
    exact Nat.lt_succ_self _
  have hsplit : lengthDigits payload.length ++ 32 :: (payload ++ more)
      = lengthDigits payload.length ++ [32] ++ (payload ++ more) := by simp
  rw [parse_eq, dropWhile_header hpos, hsplit, atLength_append (not_badLength_header hpos hle []) hlt,
    beforeSpace_header, decimal_lengthDigits]
  rw [List.drop_eq_nil_of_le (by simp), List.nil_append]
  generalize start + _ + _ = start
  rcases Nat.lt_or_ge limit payload.length with hlong | hshort
  · rw [if_pos hlong, Frame.ofPayload, if_neg (Nat.not_le_of_lt hlong), List.drop_left]
    exact ⟨_, Parse.frames_prepend .., rfl⟩
  · rw [if_neg (Nat.not_lt_of_ge hshort), Frame.ofPayload, if_pos hshort, inBody,
      if_neg (by rw [List.length_append]; omega), List.drop_left, List.take_left]
    exact ⟨_, Parse.frames_prepend .., rfl⟩

theorem parse_blanks {run : Bytes} (h : ∀ b ∈ run, Bytes.isBlank b = true) (limit start : Nat) (more : Bytes) :
    (parse limit start (run ++ more)).Yields [] fun start => parse limit start more := by
  rw [parse_dropWhile, List.dropWhile_eq_nil_iff.mpr h]
  exact ⟨_, rfl, rfl⟩

end OctetCounting

/-! ## Streams that are written -/

/-- What a sender writes. -/
inductive Piece where
  /-- A payload, in the form that the framing gives it. -/
  | unit (payload : Bytes)
  /-- Other bytes, as they are. -/
  | filler (bytes : Bytes)
  deriving DecidableEq, Repr

namespace Framing

def encode (framing : Framing) (payload : Bytes) : Bytes :=
  match framing with
  | .tagged => Tagged.openTag ++ payload ++ Tagged.closeTag
  | .newline => payload ++ [10]
  | .octetCounting => OctetCounting.lengthDigits payload.length ++ [32] ++ payload

def write (framing : Framing) : List Piece → Bytes
  | [] => []
  | .unit payload :: pieces => framing.encode payload ++ framing.write pieces
  | .filler bytes :: pieces => bytes ++ framing.write pieces

/-- The payloads that a framing can carry. -/
def Carries (framing : Framing) (payload : Bytes) : Prop :=
  match framing with
  | .tagged => ¬ Tagged.closeTag <:+: payload
  | .newline => 10 ∉ payload ∧ ∃ b ∈ payload, Bytes.isBlank b = false
  | .octetCounting => 0 < payload.length ∧ payload.length ≤ 9999999999

/-- What may stand before a unit. -/
def Tolerates (framing : Framing) (run : Bytes) : Prop :=
  match framing with
  | .tagged => ¬ Tagged.openTag <:+: run
  | .newline => run = []
  | .octetCounting => ∀ b ∈ run, Bytes.isBlank b = true

/-- What may stand behind the last unit. -/
def Closes (framing : Framing) (run : Bytes) : Prop :=
  match framing with
  | .octetCounting => ∀ b ∈ run, Bytes.isBlank b = true
  | _ => run = []

/-- A sender may write these pieces when it has written a run of other bytes since the last unit. -/
def Sendable (framing : Framing) (run : Bytes) : List Piece → Prop
  | [] => framing.Closes run
  | .unit payload :: pieces => framing.Tolerates run ∧ framing.Carries payload ∧ framing.Sendable [] pieces
  | .filler bytes :: pieces => framing.Sendable (run ++ bytes) pieces

instance : (framing : Framing) → (payload : Bytes) → Decidable (framing.Carries payload)
  | .tagged, payload => inferInstanceAs (Decidable (¬ Tagged.closeTag <:+: payload))
  | .newline, payload => inferInstanceAs (Decidable (10 ∉ payload ∧ ∃ b ∈ payload, Bytes.isBlank b = false))
  | .octetCounting, payload => inferInstanceAs (Decidable (0 < payload.length ∧ payload.length ≤ 9999999999))

instance : (framing : Framing) → (run : Bytes) → Decidable (framing.Tolerates run)
  | .tagged, run => inferInstanceAs (Decidable (¬ Tagged.openTag <:+: run))
  | .newline, run => inferInstanceAs (Decidable (run = []))
  | .octetCounting, run => inferInstanceAs (Decidable (∀ b ∈ run, Bytes.isBlank b = true))

instance : (framing : Framing) → (run : Bytes) → Decidable (framing.Closes run)
  | .tagged, run => inferInstanceAs (Decidable (run = []))
  | .newline, run => inferInstanceAs (Decidable (run = []))
  | .octetCounting, run => inferInstanceAs (Decidable (∀ b ∈ run, Bytes.isBlank b = true))

instance Sendable.decidable (framing : Framing) : (run : Bytes) → (pieces : List Piece) →
    Decidable (framing.Sendable run pieces)
  | run, [] => inferInstanceAs (Decidable (framing.Closes run))
  | run, .unit payload :: pieces =>
    have := Sendable.decidable framing [] pieces
    inferInstanceAs (Decidable (framing.Tolerates run ∧ framing.Carries payload ∧ framing.Sendable [] pieces))
  | run, .filler bytes :: pieces => Sendable.decidable framing (run ++ bytes) pieces

/-- The report for a run before a unit; blanks at its front do not count. -/
def junk (framing : Framing) (run : Bytes) : List Frame :=
  match framing with
  | .tagged =>
    let size := (run.dropWhile Bytes.isBlank).length
    if size = 0 then [] else [.malformed (.unframed size)]
  | _ => []

/-- What arrives of a payload; the end of a line may have a carriage return. -/
def arriving (framing : Framing) (payload : Bytes) : Bytes :=
  match framing with
  | .newline => Newline.trimReturn payload
  | _ => payload

/-- The frames that pieces bring behind a run of other bytes. -/
def frames (framing : Framing) (limit : Nat) (run : Bytes) : List Piece → List Frame
  | [] => []
  | .unit payload :: pieces =>
    framing.junk run ++ .ofPayload limit (framing.arriving payload) :: framing.frames limit [] pieces
  | .filler bytes :: pieces => framing.frames limit (run ++ bytes) pieces

variable {framing : Framing} {run payload : Bytes}

theorem whole_unit (hrun : framing.Tolerates run) (hpayload : framing.Carries payload) (limit : Nat) :
    framing.Whole limit (run ++ framing.encode payload)
      (framing.junk run ++ [.ofPayload limit (framing.arriving payload)]) := by
  intro more start
  cases framing with
  | tagged =>
      have hnone : Bytes.indexOf? Tagged.openTag (run.dropWhile Bytes.isBlank) = none := by
        rw [Bytes.indexOf?_eq_none_iff_not_isInfix Tagged.openTag_ne_nil]
        exact fun hfound => hrun (hfound.trans (List.dropWhile_suffix _).isInfix)
      have hopened := Tagged.parse_opened hnone limit start (payload ++ (Tagged.closeTag ++ more))
      have hjunk : (Tagged.unframed (run.dropWhile Bytes.isBlank).length).toList.map .malformed
          = Framing.tagged.junk run := by
        simp only [junk, Tagged.unframed]
        split <;> rfl
      have hunit := hopened.trans fun start => Tagged.inside_closed hpayload limit start more
      rw [hjunk] at hunit
      rw [encode, List.append_assoc, List.append_assoc, List.append_assoc]
      exact hunit
  | newline =>
      obtain rfl : run = [] := hrun
      have hline := Newline.parse_line hpayload.1 limit start more
      rw [Newline.lineFrame_eq hpayload.2] at hline
      rw [encode, List.nil_append, List.append_assoc]
      exact hline
  | octetCounting =>
      have hunit := (OctetCounting.parse_blanks hrun limit start _).trans fun start =>
        OctetCounting.parse_counted hpayload.1 hpayload.2 limit start more
      rw [encode, List.append_assoc, List.append_assoc, List.append_assoc]
      exact hunit

theorem whole_closing (h : framing.Closes run) (limit : Nat) : framing.Whole limit run [] := by
  cases framing with
  | tagged =>
      obtain rfl : run = [] := h
      exact whole_nil .tagged limit
  | newline =>
      obtain rfl : run = [] := h
      exact whole_nil .newline limit
  | octetCounting => exact fun more start => OctetCounting.parse_blanks h limit start more

theorem whole_written {pieces : List Piece} (h : framing.Sendable run pieces) (limit : Nat) :
    framing.Whole limit (run ++ framing.write pieces) (framing.frames limit run pieces) := by
  induction pieces generalizing run with
  | nil =>
      rw [write, List.append_nil]
      exact whole_closing h limit
  | cons piece pieces ih =>
      cases piece with
      | unit payload =>
          obtain ⟨hrun, hpayload, hrest⟩ := h
          have hunit := (whole_unit hrun hpayload limit).append (ih hrest)
          rwa [List.nil_append, List.append_assoc, List.append_assoc] at hunit
      | filler bytes =>
          have hrest : framing.Whole limit (run ++ bytes ++ framing.write pieces)
              (framing.frames limit (run ++ bytes) pieces) := ih h
          rwa [List.append_assoc] at hrest

end Framing

namespace Decoder

/-- What is written is read back, in whatever pieces it comes: the payloads in order, each as a record or as too
large, and what stood in between. Nothing is left in the decoder, and nothing is discarded. -/
theorem read_written (framing : Framing) (limit : Nat) (pieces : List Piece) (h : framing.Sendable [] pieces)
    (calls : List Call) (hcalls : received calls = framing.write pieces) :
    (start framing limit).drained calls = (start framing limit, (framing.frames limit [] pieces).map .ok) ∧
      (start framing limit).finished calls = (start framing limit, (framing.frames limit [] pieces).map .ok) := by
  have hwhole : framing.Whole limit (received calls) (framing.frames limit [] pieces) := by
    rw [hcalls]
    exact Framing.whole_written h limit
  exact ⟨drained_of_whole hwhole, finished_of_whole hwhole⟩

/-- Junk and payloads that end with a part of a tag, cut in the middle of another one. -/
theorem read_written_fragments :
    (start .tagged 4).finished
        [.feed ([32, 60, 114, 101] ++ Tagged.openTag ++ [60, 114, 101, 99, 60, 47]), .next,
          .feed ([114, 101, 99, 62] ++ Tagged.openTag ++ [60, 47, 114, 101, 99] ++ Tagged.closeTag)]
      = (start .tagged 4,
          [.ok (.malformed (.unframed 3)), .ok (.record [60, 114, 101, 99]), .ok (.malformed (.oversized 5 4))]) :=
  (read_written .tagged 4
    [.filler [32, 60, 114, 101], .unit [60, 114, 101, 99], .unit [60, 47, 114, 101, 99]] (by decide) _ (by decide)).2

end Decoder

end LogIntake
