import LogIntake.Proofs.Framing.Answers
import Mathlib.Data.List.Forall2

/-!
# Streams under two limits

The limit decides which records are handed out and which are only reported. It does not move the places where they
begin and end: what a stream gives under a limit and under one that is no lower goes together, frame by frame
(`Frame.Relaxed`), and the same bytes are discarded at its end. There are two exceptions. A blank line is reported
only as long as it is too large (`Newline.Passes`), and a counted record that the end of the stream cuts off is
reported or discarded (`OctetCounting.cutOff?`).
-/

namespace LogIntake

/-- What a stream gives in one place under a limit and under one that is no lower. -/
inductive Frame.Relaxed (low high : Nat) : Frame → Frame → Prop
  | record (payload : Bytes) : payload.length ≤ low → Relaxed low high (.record payload) (.record payload)
  | admitted (payload : Bytes) : low < payload.length → payload.length ≤ high →
      Relaxed low high (.malformed (.oversized payload.length low)) (.record payload)
  | oversized (size : Nat) : high < size →
      Relaxed low high (.malformed (.oversized size low)) (.malformed (.oversized size high))
  | unframed (length : Nat) : Relaxed low high (.malformed (.unframed length)) (.malformed (.unframed length))

open List (Forall₂)

variable {low high : Nat}

theorem Frame.Relaxed.of_size {payload : Bytes} {size : Nat} (hsize : payload.length = size) (hlow : low < size)
    (hhigh : size ≤ high) : Frame.Relaxed low high (.malformed (.oversized size low)) (.record payload) := by
  subst hsize
  exact .admitted payload hlow hhigh

theorem Parse.whole_prepend (p : Parse) (placed : List Placed) :
    (p.prepend placed).whole = placed.map (·.frame) ++ p.whole := by
  rw [whole, frames_prepend, ending_prepend, List.append_assoc, whole]

/-! ## Tagged records -/

namespace Tagged

theorem relaxed_verdict (hle : low ≤ high) {size : Nat} {payload : Bytes} (hsize : payload.length = size) :
    Frame.Relaxed low high (verdict low size payload) (verdict high size payload) := by
  subst hsize
  unfold verdict
  by_cases hlow : payload.length ≤ low
  · rw [if_pos hlow, if_pos (Nat.le_trans hlow hle)]
    exact .record payload hlow
  · rw [if_neg hlow]
    split
    · next hhigh => exact .admitted payload (Nat.lt_of_not_le hlow) hhigh
    · next hhigh => exact .oversized payload.length (Nat.lt_of_not_le hhigh)

theorem relaxed_unframed (low high n : Nat) :
    Forall₂ (Frame.Relaxed low high) ((unframed n).toList.map .malformed) ((unframed n).toList.map .malformed) := by
  unfold unframed
  split
  · exact .nil
  · exact .cons (.unframed n) .nil

theorem frames_junkBefore (opened n : Nat) :
    (junkBefore opened n).map (·.frame) = (unframed n).toList.map .malformed := by
  simp [junkBefore]

/-- What two meanings of a stream say. -/
structure Relaxed (low high : Nat) (p q : Parse) : Prop where
  whole : Forall₂ (Frame.Relaxed low high) p.whole q.whole
  ending : p.ending = q.ending

theorem Relaxed.prepend {p q : Parse} (h : Relaxed low high p q) {placed placed' : List Placed}
    (hplaced : Forall₂ (Frame.Relaxed low high) (placed.map (·.frame)) (placed'.map (·.frame))) :
    Relaxed low high (p.prepend placed) (q.prepend placed') := by
  refine ⟨?_, h.ending⟩
  rw [Parse.whole_prepend, Parse.whole_prepend]
  exact List.rel_append hplaced h.whole

theorem relaxed_parse (hle : low ≤ high) (start : Nat) (s : Bytes) :
    Relaxed low high (parse low start s) (parse high start s) := by
  fun_induction parse low start s with
  | case1 start s text hnone kept =>
      rw [parse_eq high, outside, hnone, Nat.zero_add]
      exact ⟨relaxed_unframed .., rfl⟩
  | case2 start s text begin_ junk hopen opened payload hnone =>
      rw [parse_eq high, outside, hopen]
      simp only
      rw [inside_of_indexOf?_none hnone, Nat.zero_add, Nat.zero_add]
      refine Relaxed.prepend ⟨.nil, rfl⟩ ?_
      rw [frames_junkBefore]
      exact relaxed_unframed ..
  | case3 start s text begin_ junk hopen opened payload size hclose closed ih =>
      have hfits := Bytes.le_length_of_indexOf? closeTag_ne_nil hclose
      have hsize : (payload.take size).length = size := List.length_take_of_le (by omega)
      rw [parse_eq high, outside, hopen]
      simp only
      rw [inside, hclose, Nat.zero_add]
      simp only [Nat.zero_add, Parse.prepend, ← List.append_assoc]
      refine ih.prepend ?_
      rw [List.map_append, List.map_append, frames_junkBefore]
      exact List.rel_append (relaxed_unframed ..) (.cons (relaxed_verdict hle hsize) .nil)

end Tagged

/-! ## Lines -/

namespace Newline

/-- The lines of a stream that are complete, without their line feeds. -/
def lines (s : Bytes) : List Bytes :=
  (s.splitOnP isLineFeed).dropLast

/-- A blank line that is too large under the lower limit only. -/
def Passes (low high : Nat) (line : Bytes) : Prop :=
  (trimReturn line).all Bytes.isBlank ∧ low < (trimReturn line).length ∧ (trimReturn line).length ≤ high

instance (low high : Nat) (line : Bytes) : Decidable (Passes low high line) :=
  inferInstanceAs (Decidable (_ ∧ _ ∧ _))

theorem lines_of_findIdx?_none {s : Bytes} (h : s.findIdx? isLineFeed = none) : lines s = [] := by
  rw [lines, List.splitOnP_eq_singleton (List.findIdx?_eq_none_iff.mp h)]
  rfl

theorem lines_of_findIdx? {s : Bytes} {stop : Nat} (h : s.findIdx? isLineFeed = some stop) :
    lines s = s.take stop :: lines (s.drop (stop + 1)) := by
  obtain ⟨hlt, hfeed, hbefore⟩ := List.findIdx?_eq_some_iff_getElem.mp h
  have hnone : ∀ b ∈ s.take stop, isLineFeed b = false := by
    intro b hb
    obtain ⟨i, hi, rfl⟩ := List.mem_take_iff_getElem.mp hb
    simpa using hbefore i (by omega)
  have hsplit : s = s.take stop ++ s[stop] :: s.drop (stop + 1) := by
    rw [List.getElem_cons_drop, List.take_append_drop]
  have hpieces := List.splitOnP_append_cons_of_forall_mem hnone s[stop] hfeed (s.drop (stop + 1))
  rw [← hsplit] at hpieces
  rw [lines, hpieces, List.dropLast_cons_of_ne_nil (List.splitOnP_ne_nil _ _)]
  rfl

theorem frames_parse (limit start : Nat) (s : Bytes) :
    (parse limit start s).frames = (lines s).filterMap (lineFrame limit) := by
  fun_induction parse limit start s with
  | case1 start s hnone => rw [lines_of_findIdx?_none hnone]; rfl
  | case2 start s stop hfound next ih =>
      rw [lines_of_findIdx? hfound, Parse.frames_prepend, ih]
      cases hline : lineFrame limit (s.take stop) <;> simp [hline]

/-- The end of a stream does not depend on the limit. -/
theorem ending_parse_eq (low high start : Nat) (s : Bytes) :
    (parse low start s).ending = (parse high start s).ending := by
  fun_induction parse low start s with
  | case1 start s hnone => rw [parse_of_findIdx?_none hnone]
  | case2 start s stop hfound next ih =>
      have hhigh := parse_append_of_findIdx? hfound high start []
      rw [List.append_nil, List.append_nil] at hhigh
      rw [hhigh]
      exact ih

theorem lineFrame_of_passes {line : Bytes} (h : Passes low high line) : lineFrame high line = none := by
  obtain ⟨hblank, -, hhigh⟩ := h
  simp only [lineFrame]
  rw [if_neg (Nat.not_lt_of_le hhigh), if_pos hblank]

theorem relaxed_lineFrame (hle : low ≤ high) {line : Bytes} (h : ¬ Passes low high line) :
    Option.Rel (Frame.Relaxed low high) (lineFrame low line) (lineFrame high line) := by
  simp only [lineFrame]
  by_cases hlow : low < (trimReturn line).length
  · rw [if_pos hlow]
    split
    · next hhigh => exact .some (.oversized _ hhigh)
    · next hhigh =>
        have hshort := Nat.le_of_not_lt hhigh
        rw [if_neg fun hblank => h ⟨hblank, hlow, hshort⟩]
        exact .some (.admitted _ hlow hshort)
  · have hshort := Nat.le_of_not_lt hlow
    rw [if_neg hlow, if_neg (Nat.not_lt_of_le (Nat.le_trans hshort hle))]
    split
    · exact .none
    · exact .some (.record _ hshort)

theorem relaxed_lines (hle : low ≤ high) (lines : List Bytes) :
    Forall₂ (Frame.Relaxed low high) ((lines.filter (¬ Passes low high ·)).filterMap (lineFrame low))
      (lines.filterMap (lineFrame high)) := by
  induction lines with
  | nil => exact .nil
  | cons line lines ih =>
      by_cases hpasses : Passes low high line
      · rw [List.filter_cons_of_neg (by simpa using hpasses), List.filterMap_cons_none (lineFrame_of_passes hpasses)]
        exact ih
      · rw [List.filter_cons_of_pos (by simpa using hpasses)]
        have hline := relaxed_lineFrame hle hpasses
        simp only [List.filterMap_cons]
        generalize lineFrame low line = f, lineFrame high line = g at hline
        cases hline with
        | none => exact ih
        | some hframe => exact .cons hframe ih

end Newline

/-! ## Counted records -/

namespace OctetCounting

/-- The length and the number of bytes that have come of a record that the end of the stream cuts off. -/
def cutOff? (s : Bytes) : Option (Nat × Nat) :=
  let text := s.dropWhile Bytes.isBlank
  let digits := beforeSpace text
  if BadLength text then none
  else if _unfinished : digits.length = text.length then none
  else
    let length := Bytes.decimal digits
    let body := text.drop (digits.length + 1)
    if body.length < length then some (length, body.length)
    else cutOff? (body.drop length)
  termination_by s.length
  decreasing_by
    have hle : (beforeSpace (s.dropWhile Bytes.isBlank)).length ≤ (s.dropWhile Bytes.isBlank).length :=
      length_beforeSpace_le _
    have hskip : (s.dropWhile Bytes.isBlank).length ≤ s.length := (List.dropWhile_sublist _).length_le
    have hne : (beforeSpace (s.dropWhile Bytes.isBlank)).length ≠ (s.dropWhile Bytes.isBlank).length := _unfinished
    simp only [List.length_drop]
    omega

/-- The same, if that record is too large under the lower limit only. -/
def parted? (low high : Nat) (s : Bytes) : Option (Nat × Nat) :=
  (cutOff? s).filter fun (length, _) => low < length ∧ length ≤ high

/-- Frames and numbers of discarded bytes under the two limits. A record that is cut off and too large under the lower
limit only is reported under that, and what has come of it is discarded under the higher limit. -/
inductive Relaxes (low high : Nat) (s : Bytes) : List Frame → Nat → List Frame → Nat → Prop
  | whole {frames frames' : List Frame} {tail : Nat} : parted? low high s = none →
      Forall₂ (Frame.Relaxed low high) frames frames' → Relaxes low high s frames tail frames' tail
  | cutOff {frames frames' : List Frame} {length received : Nat} : parted? low high s = some (length, received) →
      Forall₂ (Frame.Relaxed low high) frames frames' →
      Relaxes low high s (frames ++ [.malformed (.oversized length low)]) 0 frames' received

/-- What two meanings of a stream say. -/
def Relaxed (low high : Nat) (s : Bytes) (p q : Parse) : Prop :=
  Relaxes low high s p.frames (p.ending.tail?.getD 0) q.frames (q.ending.tail?.getD 0) ∧
    (p.ending = .desync ↔ q.ending = .desync)

theorem Relaxed.prepend {s rest : Bytes} {p q : Parse} {f f' : Placed} (h : Relaxed low high rest p q)
    (hparted : parted? low high s = parted? low high rest) (hframe : Frame.Relaxed low high f.frame f'.frame) :
    Relaxed low high s (p.prepend [f]) (q.prepend [f']) := by
  refine ⟨?_, h.2⟩
  have hframes := h.1
  simp only [Parse.frames_prepend, Parse.ending_prepend]
  generalize p.frames = frames, q.frames = frames', p.ending.tail?.getD 0 = tail, q.ending.tail?.getD 0 = tail'
    at hframes ⊢
  cases hframes with
  | whole hnone hframes => exact .whole (hparted.trans hnone) (.cons hframe hframes)
  | cutOff hsome hframes => exact .cutOff (hparted.trans hsome) (.cons hframe hframes)

theorem Relaxed.of_rest {s : Bytes} (hparted : parted? low high s = none) (last : Option Malformed) (tail : Nat) :
    Relaxed low high s (.rest last tail) (.rest last tail) :=
  ⟨.whole hparted .nil, Iff.rfl⟩

section

variable {s : Bytes}

theorem parted?_of_cutOff?_eq_none (h : cutOff? s = none) : parted? low high s = none := by
  rw [parted?, h]
  rfl

theorem cutOff?_of_badLength (h : BadLength (s.dropWhile Bytes.isBlank)) : cutOff? s = none := by
  rw [cutOff?, if_pos h]

theorem cutOff?_of_unfinished (hbad : ¬ BadLength (s.dropWhile Bytes.isBlank))
    (h : (beforeSpace (s.dropWhile Bytes.isBlank)).length = (s.dropWhile Bytes.isBlank).length) :
    cutOff? s = none := by
  rw [cutOff?, if_neg hbad, dif_pos h]

/-- A record with a length that can be read is cut off itself, or what comes behind it. -/
theorem cutOff?_of_length (hbad : ¬ BadLength (s.dropWhile Bytes.isBlank))
    (h : (beforeSpace (s.dropWhile Bytes.isBlank)).length ≠ (s.dropWhile Bytes.isBlank).length) :
    let length := Bytes.decimal (beforeSpace (s.dropWhile Bytes.isBlank))
    let body := (s.dropWhile Bytes.isBlank).drop ((beforeSpace (s.dropWhile Bytes.isBlank)).length + 1)
    cutOff? s = if body.length < length then some (length, body.length) else cutOff? (body.drop length) := by
  rw [cutOff?, if_neg hbad, dif_neg h]

end

/-- A record that is cut off and too large under the lower limit at least. -/
theorem relaxed_of_short {s body : Bytes} {length opened : Nat} (hcut : cutOff? s = some (length, body.length))
    (hlow : low < length) (hshort : body.length < length) :
    Relaxed low high s
      ((parse low (opened + length) (body.drop length)).prepend [⟨opened, .malformed (.oversized length low)⟩])
      (if high < length then
        (parse high (opened + length) (body.drop length)).prepend [⟨opened, .malformed (.oversized length high)⟩]
      else inBody high opened length body) := by
  have hparted : parted? low high s = if length ≤ high then some (length, body.length) else none := by
    rw [parted?, hcut, Option.filter_some]
    simp [hlow]
  rw [List.drop_eq_nil_of_le (Nat.le_of_lt hshort), parse_nil, parse_nil]
  split
  · next hhigh =>
      rw [if_neg (Nat.not_le_of_lt hhigh)] at hparted
      exact ⟨.whole hparted (.cons (.oversized length hhigh) .nil), Iff.rfl⟩
  · next hhigh =>
      rw [if_pos (Nat.le_of_not_lt hhigh)] at hparted
      rw [inBody, if_pos hshort]
      exact ⟨.cutOff hparted .nil, by simp [Parse.rest]⟩

theorem whole_parse (limit start : Nat) (s : Bytes) : (parse limit start s).whole = (parse limit start s).frames := by
  rcases ending_parse limit start s with hending | ⟨tail, hending⟩
  · rw [Parse.whole, hending]
    exact List.append_nil _
  · exact Parse.whole_of_ending hending

theorem relaxed_parse (hle : low ≤ high) (start : Nat) (s : Bytes) :
    Relaxed low high s (parse low start s) (parse high start s) := by
  fun_induction parse low start s with
  | case1 start s text hbad =>
      rw [parse_eq high, atLength, if_pos hbad]
      exact ⟨.whole (parted?_of_cutOff?_eq_none (cutOff?_of_badLength hbad)) .nil, Iff.rfl⟩
  | case2 start s text digits hbad hunfinished =>
      rw [parse_eq high, atLength, if_neg hbad, if_pos hunfinished]
      exact .of_rest (parted?_of_cutOff?_eq_none (cutOff?_of_unfinished hbad hunfinished)) ..
  | case3 start s text digits hbad hunfinished length opened body hlow ih =>
      have hcut := cutOff?_of_length hbad hunfinished
      rw [parse_eq high, atLength, if_neg hbad, if_neg hunfinished]
      simp only at hcut ⊢
      by_cases hshort : body.length < length
      · rw [if_pos hshort] at hcut
        exact relaxed_of_short hcut hlow hshort
      · rw [if_neg hshort] at hcut
        have hparted : parted? low high s = parted? low high (body.drop length) := by rw [parted?, hcut]; rfl
        split
        · next hhigh => exact ih.prepend hparted (.oversized length hhigh)
        · next hhigh =>
            rw [inBody, if_neg hshort]
            have hsize : (body.take length).length = length := List.length_take_of_le (Nat.le_of_not_lt hshort)
            exact ih.prepend hparted (.of_size hsize hlow (Nat.le_of_not_lt hhigh))
  | case4 start s text digits hbad hunfinished length body hlow hshort =>
      have hcut := cutOff?_of_length hbad hunfinished
      rw [parse_eq high, atLength, if_neg hbad, if_neg hunfinished]
      simp only at hcut ⊢
      rw [if_pos hshort] at hcut
      rw [if_neg (Nat.not_lt_of_le (Nat.le_trans (Nat.le_of_not_lt hlow) hle)), inBody, if_pos hshort]
      refine .of_rest ?_ ..
      rw [parted?, hcut, Option.filter_some, if_neg]
      simpa using fun hlow' => absurd hlow' hlow
  | case5 start s text digits hbad hunfinished length opened body hlow hwhole ih =>
      have hcut := cutOff?_of_length hbad hunfinished
      rw [parse_eq high, atLength, if_neg hbad, if_neg hunfinished]
      simp only at hcut ⊢
      rw [if_neg hwhole] at hcut
      have hparted : parted? low high s = parted? low high (body.drop length) := by rw [parted?, hcut]; rfl
      rw [if_neg (Nat.not_lt_of_le (Nat.le_trans (Nat.le_of_not_lt hlow) hle)), inBody, if_neg hwhole]
      exact ih.prepend hparted (.record _ (Nat.le_trans (List.length_take_le ..) (Nat.le_of_not_lt hlow)))

end OctetCounting

/-! ## Decoders -/

/-- Frames and numbers of discarded bytes that a stream gives under the two limits. Of lines, those that pass under
the higher limit only are left out. -/
def Framing.Relaxes (framing : Framing) (low high : Nat) (s : Bytes) (frames : List Frame) (tail : Nat)
    (frames' : List Frame) (tail' : Nat) : Prop :=
  match framing with
  | .tagged => Forall₂ (Frame.Relaxed low high) frames frames' ∧ tail = tail'
  | .newline =>
    let lines := Newline.lines s
    frames = lines.filterMap (Newline.lineFrame low) ∧
      Forall₂ (Frame.Relaxed low high)
        ((lines.filter (¬ Newline.Passes low high ·)).filterMap (Newline.lineFrame low)) frames' ∧
      tail = tail'
  | .octetCounting => OctetCounting.Relaxes low high s frames tail frames' tail'

theorem Framing.relaxes_meaning (framing : Framing) (hle : low ≤ high) (s : Bytes) :
    let p := framing.meaning low s
    let q := framing.meaning high s
    framing.Relaxes low high s p.whole (p.ending.tail?.getD 0) q.whole (q.ending.tail?.getD 0) ∧
      (p.ending = .desync ↔ q.ending = .desync) := by
  intro p q
  cases framing with
  | tagged =>
      obtain ⟨hwhole, hending⟩ := Tagged.relaxed_parse hle 0 s
      change p.ending = q.ending at hending
      rw [hending]
      exact ⟨⟨hwhole, rfl⟩, Iff.rfl⟩
  | newline =>
      have hending : p.ending = q.ending := Newline.ending_parse_eq low high 0 s
      obtain ⟨tail, htail⟩ := Newline.ending_parse high 0 s
      have hlow := (Parse.whole_of_ending (hending.trans htail)).trans (Newline.frames_parse low 0 s)
      have hhigh := (Parse.whole_of_ending htail).trans (Newline.frames_parse high 0 s)
      rw [hending]
      refine ⟨⟨hlow, ?_, rfl⟩, Iff.rfl⟩
      change Forall₂ _ _ (Newline.parse high 0 s).whole
      rw [hhigh]
      exact Newline.relaxed_lines hle (Newline.lines s)
  | octetCounting =>
      obtain ⟨hrelaxes, hdesync⟩ := OctetCounting.relaxed_parse hle 0 s
      refine ⟨?_, hdesync⟩
      rw [← OctetCounting.whole_parse, ← OctetCounting.whole_parse] at hrelaxes
      exact hrelaxes

namespace Decoder

def framesIn (answered : List (Except Desync Frame)) : List Frame :=
  answered.filterMap Except.toOption

def Fails (answered : List (Except Desync Frame)) : Prop :=
  ∃ desync, .error desync ∈ answered

theorem framesIn_answersOf (given : List Frame) (failures : List Desync) :
    framesIn (answersOf given failures) = given := by
  simp [framesIn, answersOf, Except.toOption, Function.comp_def]

theorem fails_answersOf (given : List Frame) (failures : List Desync) :
    Fails (answersOf given failures) ↔ failures ≠ [] := by
  have hmem : Fails (answersOf given failures) ↔ ∃ desync, desync ∈ failures := by simp [Fails, answersOf]
  refine hmem.trans ⟨fun hfails => ?_, List.exists_mem_of_ne_nil failures⟩
  obtain ⟨desync, hd⟩ := hfails
  exact List.ne_nil_of_mem hd

/-- Nothing is discarded by a decoder that has lost the synchronisation. -/
theorem discarded_drainEnd {d : Decoder} (hs : d.Sound) (h : d.drainEnd.2.desync ≠ none) :
    d.drainEnd.1.discarded = d.discarded := by
  have hfinish := closure_finish hs
  fun_induction Decoder.drainEnd d with
  | case1 d e frame hd last harvest hdrain ih =>
      rw [hd] at hfinish
      rw [hdrain] at ih
      exact (ih hfinish.sound h (closure_finish hfinish.sound)).trans (hfinish.frame frame rfl).1
  | case2 d e hd => exact absurd rfl h
  | case3 d e desync hd =>
      rw [hd] at hfinish
      exact (hfinish.lost desync rfl).1

theorem discarded_of_desync {framing : Framing} {limit : Nat} {calls : List Call}
    (h : (framing.meaning limit (received calls)).ending = .desync) :
    ((start framing limit).finished calls).1.discarded = 0 := by
  obtain ⟨given, failures, hdrained, -, -⟩ := answered_drained framing limit calls
  have htail := hdrained.follows.ends.drainEnd.2
  rw [h] at htail
  exact (discarded_drainEnd hdrained.follows.sound htail).trans hdrained.discarded

theorem finished_meaning (framing : Framing) (limit : Nat) (calls : List Call) :
    let p := framing.meaning limit (received calls)
    framesIn ((start framing limit).finished calls).2 = p.whole ∧
      ((start framing limit).finished calls).1.discarded = p.ending.tail?.getD 0 ∧
      (Fails ((start framing limit).finished calls).2 ↔ p.ending = .desync) := by
  obtain ⟨failures, hanswers, htail⟩ := finished_answers framing limit calls
  simp only
  rw [hanswers, framesIn_answersOf, fails_answersOf]
  refine ⟨rfl, ?_⟩
  cases hending : (framing.meaning limit (received calls)).ending with
  | closed last tail =>
      rw [hending] at htail
      exact ⟨htail.2, by simp [htail.1]⟩
  | desync =>
      rw [hending] at htail
      exact ⟨discarded_of_desync hending, fun _ => rfl, fun _ => htail⟩

/-- However a stream comes, under a limit and under one that is no lower a decoder hands out frames with the same
bounds, discards the same, and loses the synchronisation in both cases or in none. -/
theorem limit_keeps_bounds {low high : Nat} (hle : low ≤ high) {calls calls' : List Call}
    (hsame : received calls = received calls') (framing : Framing) :
    let (d, answered) := (start framing low).finished calls
    let (d', answered') := (start framing high).finished calls'
    framing.Relaxes low high (received calls) (framesIn answered) d.discarded (framesIn answered') d'.discarded ∧
      (Fails answered ↔ Fails answered') := by
  obtain ⟨hframes, htail, hfails⟩ := finished_meaning framing low calls
  obtain ⟨hframes', htail', hfails'⟩ := finished_meaning framing high calls'
  rw [← hsame] at hframes' htail' hfails'
  obtain ⟨hrelaxes, hdesync⟩ := framing.relaxes_meaning hle (received calls)
  simp only
  rw [hframes, htail, hframes', htail', hfails, hfails']
  exact ⟨hrelaxes, hdesync⟩

/-- `3 abc3 x` under the limits 2 and 3, in pieces and at once: the second record is cut off. -/
theorem limit_keeps_bounds_cut_off :
    let calls : List Call := [.feed [51, 32, 97], .next, .feed [98, 99, 51, 32, 120]]
    let calls' : List Call := [.feed [51, 32, 97, 98, 99, 51, 32, 120]]
    2 ≤ 3 ∧ received calls = received calls' ∧
      let (d, answered) := (start .octetCounting 2).finished calls
      let (d', answered') := (start .octetCounting 3).finished calls'
      Framing.octetCounting.Relaxes 2 3 (received calls) (framesIn answered) d.discarded (framesIn answered')
          d'.discarded ∧
        (Fails answered ↔ Fails answered') := by
  intro calls calls'
  exact ⟨by decide, rfl, @limit_keeps_bounds 2 3 (by decide) calls calls' rfl .octetCounting⟩

end Decoder

end LogIntake
