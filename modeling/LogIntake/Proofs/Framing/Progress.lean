import LogIntake.Proofs.Framing.Balance

/-!
# What the turns of a call lead to

A position has an answer, the one that its call gives when it goes on from there, and a weight. A turn either ends the
call with the answer of its position, or leads to a lighter position with the same answer (`Decoder.leads_turn`). So
does a turn that takes no byte: when blanks have been skipped, or when nothing is left of a record that was skipped, the
loop is where it goes on only by taking bytes.
-/

namespace LogIntake

/-! ## Tagged records -/

namespace Tagged

/-- The search for an open tag behind the blanks. -/
def opening (f : Framer State) (junk : Nat) : Framer State × Option Frame :=
  match Bytes.indexOf? openTag f.buffer with
  | some start =>
    let opened := { f with buffer := f.buffer.drop (start + openTag.length), state := .inRecord 0 }
    if junk + start = 0 then scan opened 0 else (opened, some (.malformed (.unframed (junk + start))))
  | none =>
    let settled := Bytes.settled openTag f.buffer
    ({ f with buffer := f.buffer.drop settled, state := .seeking (junk + settled) }, none)

theorem seek_eq_opening (f : Framer State) (junk : Nat) :
    seek f junk = opening { f with buffer := searched f junk } junk := rfl

end Tagged

namespace Decoder

/-- What a call answers from a position on. -/
def Position.answer : Position → Decoder × Except Desync (Option Frame)
  | .main d => d.next
  | .opening f junk =>
    let (g, frame) := Tagged.opening f junk
    (.tagged g, .ok frame)

/-- Twice the bytes left, and one more where a turn need not take any: before the blanks are skipped, and when nothing
of a record is left to be skipped. -/
def Position.weight : Position → Nat
  | .main (.tagged f) => 2 * f.buffer.length + (match f.state with | .seeking _ => 1 | _ => 0)
  | .main (.newline f) => 2 * f.buffer.length
  | .main (.octetCounting f) => 2 * f.buffer.length + (match f.state with | .skip _ => 1 | _ => 0)
  | .opening f _ => 2 * f.buffer.length

/-- A turn from a position ends with its answer, or leads to a lighter position with the same answer. -/
def Position.Leads (p : Position) : Outcome → Prop
  | .again q => q.answer = p.answer ∧ q.weight < p.weight
  | .done answer => answer = p.answer

end Decoder

namespace Tagged

open Decoder

variable {f : Framer State} {junk : Nat}

theorem leads_seekTurn (h : f.state = .seeking junk) : (Position.main (.tagged f)).Leads (seekTurn f junk).value := by
  have hskip := length_searched_le f junk
  rw [value_seekTurn]
  refine ⟨?_, ?_⟩
  · simp [Position.answer, Decoder.next, next, h, seek_eq_opening]
  · simp only [Position.weight, h]
    omega

/-- What an open tag in front of the buffer comes to. -/
theorem opening_of_isPrefix (h : openTag <+: f.buffer) :
    opening f junk =
      let opened := { f with buffer := f.buffer.drop openTag.length, state := .inRecord 0 }
      if junk = 0 then scan opened 0 else (opened, some (.malformed (.unframed junk))) := by
  have hfound : Bytes.indexOf? openTag f.buffer = some 0 :=
    (Bytes.indexOf?_eq_some_iff openTag_ne_nil).mpr ⟨h, fun j hj => absurd hj (Nat.not_lt_zero j)⟩
  simp [opening, hfound]

/-- A part of an open tag is waited for. -/
theorem opening_of_part (hstart : ¬ openTag <+: f.buffer) (hpart : f.buffer <+: openTag) :
    opening f junk = ({ f with state := .seeking junk }, none) := by
  have hlt : f.buffer.length < openTag.length := by
    refine Nat.lt_of_le_of_ne hpart.length_le fun heq => hstart ?_
    exact hpart.eq_of_length heq ▸ List.prefix_refl _
  have hnone : Bytes.indexOf? openTag f.buffer = none := by
    refine (Bytes.indexOf?_eq_none_iff openTag_ne_nil).mpr fun i hoccur => ?_
    have hle := hoccur.length_le openTag_ne_nil
    omega
  have hsettled : Bytes.settled openTag f.buffer = 0 := by
    rw [Bytes.settled, Bytes.overlap_eq_length hlt hpart, Nat.sub_self]
  simp [opening, hnone, hsettled]

/-- The junk before an open tag may be dropped first. -/
theorem opening_of_found {start : Nat} (h : Bytes.indexOf? openTag f.buffer = some start) :
    opening { f with buffer := f.buffer.drop start } (junk + start) = opening f junk := by
  have hoccur := ((Bytes.indexOf?_eq_some_iff openTag_ne_nil).mp h).1
  rw [@opening_of_isPrefix { f with buffer := f.buffer.drop start } _ hoccur]
  simp [opening, h, List.drop_drop]

/-- Without an open tag all may be dropped first that can be no part of one. -/
theorem opening_of_none (h : Bytes.indexOf? openTag f.buffer = none) :
    opening { f with buffer := f.buffer.drop (Bytes.settled openTag f.buffer) }
      (junk + Bytes.settled openTag f.buffer) = opening f junk := by
  have hlt := Bytes.overlap_lt openTag_ne_nil f.buffer
  have hkept := Bytes.drop_settled openTag_ne_nil f.buffer
  have hlen := List.length_take_of_le (Nat.le_of_lt hlt)
  rw [opening_of_part]
  · simp [opening, h]
  · intro hopen
    have hle := hopen.length_le
    simp only [hkept, hlen] at hle
    omega
  · simp only [hkept]
    exact List.take_prefix ..

/-- What is neither an open tag nor a part of one begins with junk, of which a byte at least is dropped. -/
theorem exists_skip (junk : Nat) (hopen : ¬ openTag <+: f.buffer) (hpart : ¬ f.buffer <+: openTag) :
    ∃ skip, 0 < skip ∧ skip ≤ f.buffer.length ∧
      (openTurn f junk).value = .again (.opening { f with buffer := f.buffer.drop skip } (junk + skip)) ∧
      opening { f with buffer := f.buffer.drop skip } (junk + skip) = opening f junk := by
  have hturn := @Checked.value_find f.buffer openTag openTag_ne_nil
  rw [← List.isPrefixOf_iff_prefix] at hopen hpart
  cases hfound : Bytes.indexOf? openTag f.buffer with
  | some start =>
      have hlen := Bytes.le_length_of_indexOf? openTag_ne_nil hfound
      refine ⟨start, Nat.pos_of_ne_zero ?_, Nat.le_of_add_right_le hlen, ?_, opening_of_found hfound⟩
      · rintro rfl
        have hoccur := ((Bytes.indexOf?_eq_some_iff openTag_ne_nil).mp hfound).1
        exact hopen (List.isPrefixOf_iff_prefix.mpr hoccur)
      · simp [openTurn, hopen, hpart, hturn, hfound]
  | none =>
      refine ⟨Bytes.settled openTag f.buffer, Nat.pos_of_ne_zero fun hzero => ?_, Bytes.settled_le .., ?_,
        opening_of_none hfound⟩
      · have hkept := Bytes.drop_settled openTag_ne_nil f.buffer
        rw [hzero, List.drop_zero] at hkept
        exact hpart (List.isPrefixOf_iff_prefix.mpr (hkept ▸ List.take_prefix ..))
      · simp [openTurn, hopen, hpart, hturn, hfound, Bytes.settled]

theorem leads_openTurn (f : Framer State) (junk : Nat) : (Position.opening f junk).Leads (openTurn f junk).value := by
  by_cases hopen : openTag <+: f.buffer
  · have hlen : 5 ≤ f.buffer.length := hopen.length_le
    rw [openTurn, if_pos (List.isPrefixOf_iff_prefix.mpr hopen)]
    simp only [Checked.value_bind, Checked.value_advance, Checked.value_pure]
    split
    · next hjunk => simp [Position.Leads, answer, Position.answer, opening_of_isPrefix hopen, Nat.ne_of_gt hjunk]
    · next hjunk =>
        obtain rfl : junk = 0 := Nat.eq_zero_of_not_pos hjunk
        refine ⟨?_, ?_⟩
        · simp [Position.answer, Decoder.next, next, opening_of_isPrefix hopen]
        · simp only [Position.weight, List.length_drop, openTag, List.length_cons, List.length_nil]
          omega
  · by_cases hpart : f.buffer <+: openTag
    · rw [openTurn, if_neg (mt List.isPrefixOf_iff_prefix.mp hopen), if_pos (List.isPrefixOf_iff_prefix.mpr hpart)]
      simp [Position.Leads, answer, Position.answer, opening_of_part hopen hpart]
    · obtain ⟨skip, hpos, hle, hvalue, hopening⟩ := exists_skip junk hopen hpart
      rw [hvalue]
      refine ⟨by simp only [Position.answer, hopening], ?_⟩
      simp only [Position.weight, List.length_drop]
      omega

theorem leads_scanTurn {scanned : Nat} (h : f.state = .inRecord scanned) :
    (Position.main (.tagged f)).Leads (scanTurn f scanned).value := by
  have hanswer : (Position.main (.tagged f)).answer = (.tagged (scan f scanned).1, .ok (scan f scanned).2) := by
    simp [Position.answer, Decoder.next, next, h]
  have hfind := fun text => @Checked.value_find text closeTag closeTag_ne_nil
  cases hfound : Bytes.indexOf? closeTag (f.buffer.drop (scanned - (closeTag.length - 1))) with
  | some offset =>
      by_cases hlimit : f.limit < scanned - (closeTag.length - 1) + offset
      · simp [scanTurn, hfind, hfound, hlimit, Position.Leads, answer, hanswer, scan]
      · simp [scanTurn, hfind, hfound, hlimit, Position.Leads, answer, hanswer, scan, List.drop_drop]
  | none =>
      by_cases hlimit : f.limit < f.buffer.length - Bytes.overlap closeTag f.buffer
      · generalize hsettled : f.buffer.length - Bytes.overlap closeTag f.buffer = settled at hlimit
        have hvalue : (scanTurn f scanned).value
            = goOn { f with buffer := f.buffer.drop settled, state := .discarding settled } := by
          simp [scanTurn, hfind, hfound, hsettled, hlimit]
        have hscan : scan f scanned = discard { f with buffer := f.buffer.drop settled } settled := by
          simp [scan, hfound, hsettled, hlimit]
        rw [hvalue]
        refine ⟨?_, ?_⟩
        · rw [hanswer, hscan]
          rfl
        · simp only [Position.weight, h, List.length_drop]
          omega
      · simp [scanTurn, hfind, hfound, hlimit, Position.Leads, answer, hanswer, scan]

theorem leads_discardTurn {skipped : Nat} (h : f.state = .discarding skipped) :
    (Position.main (.tagged f)).Leads (discardTurn f skipped).value := by
  simp only [discardTurn, Checked.value_bind, Checked.value_find closeTag_ne_nil]
  cases hfound : Bytes.indexOf? closeTag f.buffer <;>
    simp [Position.Leads, answer, Position.answer, Decoder.next, next, h, discard, hfound]

theorem leads_turn (f : Framer State) : (Position.main (.tagged f)).Leads (turn f).value := by
  unfold turn
  split
  · next h => exact leads_seekTurn h
  · next h => exact leads_scanTurn h
  · next h => exact leads_discardTurn h

end Tagged

/-! ## Lines -/

namespace Newline

open Decoder

variable {f : Framer State}

theorem dropLast_take_succ {s : Bytes} {n : Nat} (h : n < s.length) : (s.take (n + 1)).dropLast = s.take n := by
  rw [List.dropLast_eq_take, List.take_take, List.length_take]
  congr 1
  omega

theorem scan_of_some {checked offset : Nat} (h : (f.buffer.drop checked).findIdx? isLineFeed = some offset) :
    scan f checked =
      let line := trimReturn (f.buffer.take (checked + offset))
      let rest := { f with buffer := f.buffer.drop (checked + offset + 1), state := .scanning 0 }
      if f.limit < line.length then (rest, some (f.oversized line.length))
      else if line.all Bytes.isBlank then scan rest 0
      else (rest, some (.record line)) := by
  rw [scan]
  split
  · next hfound =>
      rw [h] at hfound
      cases hfound
      rfl
  · next hnone =>
      rw [h] at hnone
      cases hnone

theorem scan_of_none {checked : Nat} (h : (f.buffer.drop checked).findIdx? isLineFeed = none) :
    scan f checked =
      if f.limit < f.buffer.length - (endsWithReturn f.buffer).toNat then
        ({ f with buffer := [], state := .discarding f.buffer.length (endsWithReturn f.buffer) }, none)
      else ({ f with state := .scanning f.buffer.length }, none) := by
  rw [scan]
  split
  · next hfound =>
      rw [h] at hfound
      cases hfound
  · rfl

theorem leads_scanTurn {checked : Nat} (h : f.state = .scanning checked) :
    (Position.main (.newline f)).Leads (scanTurn f checked).value := by
  have hanswer : (Position.main (.newline f)).answer = (.newline (scan f checked).1, .ok (scan f checked).2) := by
    simp [Position.answer, Decoder.next, next, h]
  cases hfound : (f.buffer.drop checked).findIdx? isLineFeed with
  | some offset =>
      have hstop := add_lt_length_of_findIdx? hfound
      rw [scan_of_some hfound] at hanswer
      generalize hline : trimReturn (f.buffer.take (checked + offset)) = line at hanswer
      have htrim : trimReturn (f.buffer.take (checked + offset + 1)).dropLast = line := by
        rw [dropLast_take_succ hstop, hline]
      by_cases hlong : f.limit < line.length
      · simp [scanTurn, hfound, htrim, hlong, Position.Leads, answer, hanswer]
      · cases hblank : line.all Bytes.isBlank with
        | true =>
            have hvalue : (scanTurn f checked).value = .again (.main (.newline
                { f with buffer := f.buffer.drop (checked + offset + 1), state := .scanning 0 })) := by
              simp [scanTurn, hfound, htrim, hlong, hblank, -List.all_eq_true]
            rw [hvalue]
            refine ⟨?_, ?_⟩
            · simp only [hanswer, if_neg hlong, if_pos hblank]
              rfl
            · simp only [Position.weight, List.length_drop]
              omega
        | false =>
            simp [scanTurn, hfound, htrim, hlong, hblank, Position.Leads, answer, hanswer, -List.all_eq_true]
  | none =>
      by_cases hlong : f.limit < f.buffer.length - (endsWithReturn f.buffer).toNat <;>
        simp [scanTurn, hfound, hlong, Position.Leads, answer, hanswer, scan_of_none hfound]

theorem endsWithReturn_take {s : Bytes} {n : Nat} (hpos : n ≠ 0) (hle : n ≤ s.length) :
    endsWithReturn (s.take n) = isReturn (s.getD (n - 1) 0) := by
  have hlt : n - 1 < s.length := by omega
  rw [endsWithReturn, List.getLast?_take, if_neg hpos, List.getElem?_eq_getElem hlt, Option.some_or,
    Option.any_some, List.getD_eq_getElem?_getD, List.getElem?_eq_getElem hlt, Option.getD_some]

theorem leads_discardTurn {skipped : Nat} {after : Bool} (h : f.state = .discarding skipped after) :
    (Position.main (.newline f)).Leads (discardTurn f skipped after).value := by
  have hanswer : (Position.main (.newline f)).answer
      = (.newline (discard f skipped after).1, .ok (discard f skipped after).2) := by
    simp [Position.answer, Decoder.next, next, h]
  cases hfound : f.buffer.findIdx? isLineFeed with
  | some stop =>
      by_cases hstop : stop = 0
      · simp [discardTurn, hfound, hstop, Position.Leads, answer, hanswer, discard]
      · have hreturn := endsWithReturn_take hstop (Nat.le_of_lt (lt_length_of_findIdx? hfound))
        simp [discardTurn, hfound, hstop, Position.Leads, answer, hanswer, discard, hreturn]
  | none =>
      cases hlast : f.buffer.getLast? with
      | some last =>
          have hne : f.buffer ≠ [] := fun hnil => by simp [hnil] at hlast
          simp [discardTurn, hfound, hlast, Position.Leads, answer, hanswer, discard, hne, endsWithReturn]
      | none =>
          have hnil : f.buffer = [] := List.getLast?_eq_none_iff.mp hlast
          have hsame : f = { f with buffer := [], state := .discarding skipped after } := by
            rw [← hnil, ← h]
          simp [discardTurn, Position.Leads, answer, hanswer, discard, hnil, ← hsame]

theorem leads_turn (f : Framer State) : (Position.main (.newline f)).Leads (turn f).value := by
  unfold turn
  split
  · next h => exact leads_scanTurn h
  · next h => exact leads_discardTurn h

end Newline

/-! ## Counted records -/

namespace OctetCounting

open Decoder

variable {f : Framer State}

theorem leads_headerTurn (h : f.state = .header) : (Position.main (.octetCounting f)).Leads (headerTurn f).value := by
  have hanswer : (Position.main (.octetCounting f)).answer = (.octetCounting (header f).1, (header f).2) := by
    simp [Position.answer, Decoder.next, next, h]
  have hskip : (f.buffer.dropWhile Bytes.isBlank).length ≤ f.buffer.length :=
    (List.dropWhile_sublist _).length_le
  rw [value_headerTurn]
  unfold header at hanswer
  simp only at hanswer ⊢
  generalize f.buffer.dropWhile Bytes.isBlank = buffer at hanswer hskip ⊢
  split
  · next hread =>
      simp only [hread] at hanswer
      exact hanswer.symm
  · next hread =>
      simp only [hread] at hanswer
      exact hanswer.symm
  · next length taken hread =>
      obtain ⟨htaken, hbuffer⟩ := taken_pos hread
      simp only [hread] at hanswer
      split
      · next hlimit =>
          rw [if_pos hlimit] at hanswer
          exact hanswer.symm
      · next hlimit =>
          rw [if_neg hlimit] at hanswer
          refine ⟨?_, ?_⟩
          · rw [hanswer]
            rfl
          · simp only [Position.weight, h, List.length_drop]
            omega

theorem leads_bodyTurn {length : Nat} (h : f.state = .body length) :
    (Position.main (.octetCounting f)).Leads (bodyTurn f length).value := by
  by_cases hshort : f.buffer.length < length <;>
    simp [bodyTurn, hshort, Position.Leads, answer, Position.answer, Decoder.next, next, h, body]

theorem leads_skipTurn {remaining : Nat} (h : f.state = .skip remaining) :
    (Position.main (.octetCounting f)).Leads (skipTurn f remaining).value := by
  have hanswer : (Position.main (.octetCounting f)).answer
      = (.octetCounting (skip f remaining).1, (skip f remaining).2) := by
    simp [Position.answer, Decoder.next, next, h]
  by_cases hshort : f.buffer.length < remaining
  · have hmin : min remaining f.buffer.length = f.buffer.length := Nat.min_eq_right (Nat.le_of_lt hshort)
    have hnil : f.buffer.drop remaining = [] := List.drop_eq_nil_of_le (Nat.le_of_lt hshort)
    simp [skipTurn, hmin, hshort, Position.Leads, answer, hanswer, skip, hnil]
  · have hmin : min remaining f.buffer.length = remaining := Nat.min_eq_left (Nat.le_of_not_lt hshort)
    have hvalue : (skipTurn f remaining).value
        = goOn { f with buffer := f.buffer.drop remaining, state := .header } := by
      simp [skipTurn, hmin]
    rw [hvalue]
    refine ⟨?_, ?_⟩
    · rw [hanswer, skip, if_neg hshort]
      rfl
    · simp only [Position.weight, h, List.length_drop]
      omega

theorem leads_turn (f : Framer State) : (Position.main (.octetCounting f)).Leads (turn f).value := by
  unfold turn
  split
  · next h => exact leads_headerTurn h
  · next h => exact leads_bodyTurn h
  · next h => exact leads_skipTurn h

end OctetCounting

/-! ## Decoders -/

namespace Decoder

theorem leads_turn (p : Position) : p.Leads p.turn.value := by
  cases p with
  | main d =>
      cases d with
      | tagged f => exact Tagged.leads_turn f
      | newline f => exact Newline.leads_turn f
      | octetCounting f => exact OctetCounting.leads_turn f
  | opening f junk => exact Tagged.leads_openTurn f junk

end Decoder

end LogIntake
