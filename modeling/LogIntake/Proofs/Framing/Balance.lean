import LogIntake.Proofs.Framing.Newline
import LogIntake.Proofs.Framing.Tagged
import LogIntake.Proofs.Framing.Turns

/-!
# What a turn makes of the bytes

A decoder accounts for the bytes that it has received: they are in its buffer, dropped in front of a report that is
still to come, or discarded (`Decoder.held`). Each frame takes a byte at least, but for a report of junk that waits and
a record whose length has been read (`Decoder.due`). No turn of a call makes either of them larger, and the positions in
the buffer that a decoder remembers stay inside of it (`Decoder.Position.Keeps`).
-/

namespace LogIntake

/-! ## The account -/

namespace Tagged

/-- How many bytes are dropped and not yet reported. -/
@[simp] def State.dropped : State → Nat
  | .seeking junk => junk
  | .inRecord _ => 0
  | .discarding skipped => skipped

/-- Whether a report of junk waits. -/
@[simp] def State.waiting : State → Nat
  | .seeking junk => min junk 1
  | _ => 0

/-- What is searched already is in the buffer. -/
def Inside (f : Framer State) : Prop :=
  ∀ scanned, f.state = .inRecord scanned → scanned ≤ f.buffer.length

end Tagged

namespace Newline

@[simp] def State.dropped : State → Nat
  | .scanning _ => 0
  | .discarding skipped _ => skipped

/-- What is searched already is in the buffer, and a carriage return that was dropped is among what was dropped. -/
def Inside (f : Framer State) : Prop :=
  match f.state with
  | .scanning checked => checked ≤ f.buffer.length
  | .discarding skipped afterReturn => afterReturn.toNat ≤ skipped

end Newline

/-- Whether the length of a record has been read. -/
@[simp] def OctetCounting.State.waiting : State → Nat
  | .body _ => 1
  | _ => 0

namespace Decoder

@[simp] def held : Decoder → Nat
  | .tagged f => f.state.dropped + f.buffer.length + f.discarded
  | .newline f => f.state.dropped + f.buffer.length + f.discarded
  | .octetCounting f => f.buffer.length + f.discarded

/-- How many frames may come without more bytes. -/
@[simp] def due : Decoder → Nat
  | .tagged f => f.buffer.length + f.state.waiting
  | .newline f => f.buffer.length
  | .octetCounting f => f.buffer.length + f.state.waiting

def Inside : Decoder → Prop
  | .tagged f => Tagged.Inside f
  | .newline f => Newline.Inside f
  | .octetCounting _ => True

namespace Position

@[simp] def held : Position → Nat
  | .main d => d.held
  | .opening f junk => junk + f.buffer.length + f.discarded

@[simp] def due : Position → Nat
  | .main d => d.due
  | .opening f junk => f.buffer.length + min junk 1

def Inside : Position → Prop
  | .main d => d.Inside
  | .opening _ _ => True

/-- Between two positions no byte is added and so many frames are handed out. -/
structure Keeps (p q : Position) (frames : Nat) : Prop where
  held : q.held ≤ p.held
  due : frames + q.due ≤ p.due
  inside : q.Inside

/-- What a turn keeps. -/
def Balances (p : Position) : Outcome → Prop
  | .again q => p.Keeps q 0
  | .done (d, given) => p.Keeps (.main d) (handedFrames given).length

@[simp] theorem balances_again {p q : Position} : p.Balances (.again q) ↔ p.Keeps q 0 := Iff.rfl

theorem keeps_iff {p q : Position} {frames : Nat} :
    p.Keeps q frames ↔ q.held ≤ p.held ∧ frames + q.due ≤ p.due ∧ q.Inside :=
  ⟨fun h => ⟨h.held, h.due, h.inside⟩, fun ⟨held, due, inside⟩ => ⟨held, due, inside⟩⟩

end Position

end Decoder

open Decoder

/-! ## Tagged records -/

namespace Tagged

variable {f g : Framer State} {junk : Nat} {p : Position}

@[simp] theorem balances_answer {frame : Option Frame} :
    p.Balances (answer g frame) ↔ p.Keeps (.main (.tagged g)) frame.toList.length := Iff.rfl

@[simp] theorem balances_goOn : p.Balances (goOn g) ↔ p.Keeps (.main (.tagged g)) 0 := Iff.rfl

@[simp] theorem keeps_main {frames : Nat} : p.Keeps (.main (.tagged g)) frames ↔
    g.state.dropped + g.buffer.length + g.discarded ≤ p.held ∧
      frames + (g.buffer.length + g.state.waiting) ≤ p.due ∧ Inside g := Position.keeps_iff

@[simp] theorem keeps_opening {frames : Nat} : p.Keeps (.opening g junk) frames ↔
    junk + g.buffer.length + g.discarded ≤ p.held ∧ frames + (g.buffer.length + min junk 1) ≤ p.due := by
  rw [Position.keeps_iff]
  simp [Position.Inside]

theorem value_seekTurn (f : Framer State) (junk : Nat) :
    (seekTurn f junk).value = .again (.opening { f with buffer := searched f junk } junk) := by
  by_cases hjunk : junk = 0 <;> simp [seekTurn, searched, hjunk]

theorem length_searched_le (f : Framer State) (junk : Nat) : (searched f junk).length ≤ f.buffer.length := by
  unfold searched
  split
  · exact (List.dropWhile_sublist _).length_le
  · exact Nat.le_refl _

theorem balances_seekTurn (h : f.state = .seeking junk) :
    (Position.main (.tagged f)).Balances (seekTurn f junk).value := by
  have hskip := length_searched_le f junk
  rw [value_seekTurn]
  simp [h]
  omega

theorem balances_openTurn (f : Framer State) (junk : Nat) :
    (Position.opening f junk).Balances (openTurn f junk).value := by
  unfold openTurn
  split
  · next hopen =>
      have hlen : 5 ≤ f.buffer.length := (List.isPrefixOf_iff_prefix.mp hopen).length_le
      by_cases hjunk : 0 < junk <;> simp [hjunk, Inside, openTag] <;> omega
  · split
    · simp [Inside]
    · cases hfound : Bytes.indexOf? openTag f.buffer with
      | some start =>
          have hlen := Bytes.le_length_of_indexOf? openTag_ne_nil hfound
          simp [Checked.value_find openTag_ne_nil, hfound]
          omega
      | none =>
          simp [Checked.value_find openTag_ne_nil, hfound]
          omega

theorem balances_scanTurn {scanned : Nat} (h : f.state = .inRecord scanned) :
    (Position.main (.tagged f)).Balances (scanTurn f scanned).value := by
  have hfind := fun text => @Checked.value_find text closeTag closeTag_ne_nil
  cases hfound : Bytes.indexOf? closeTag (f.buffer.drop (scanned - (closeTag.length - 1))) with
  | some offset =>
      have hlen := Bytes.le_length_of_indexOf? closeTag_ne_nil hfound
      have hsix : closeTag.length = 6 := rfl
      rw [List.length_drop] at hlen
      by_cases hlimit : f.limit < scanned - (closeTag.length - 1) + offset <;>
        simp [scanTurn, hfind, hfound, hlimit, h, Inside] <;> omega
  | none =>
      by_cases hlimit : f.limit < f.buffer.length - Bytes.overlap closeTag f.buffer <;>
        simp [scanTurn, hfind, hfound, hlimit, h, Inside]

theorem balances_discardTurn {skipped : Nat} (h : f.state = .discarding skipped) :
    (Position.main (.tagged f)).Balances (discardTurn f skipped).value := by
  have hfind := fun text => @Checked.value_find text closeTag closeTag_ne_nil
  cases hfound : Bytes.indexOf? closeTag f.buffer with
  | some stop =>
      have hlen := Bytes.le_length_of_indexOf? closeTag_ne_nil hfound
      have hsix : closeTag.length = 6 := rfl
      simp [discardTurn, hfind, hfound, h, Inside]
      omega
  | none =>
      simp only [discardTurn, Checked.value_bind, hfind, hfound, Checked.value_overlap, Checked.value_sub,
        Checked.value_advance, Checked.value_add, Checked.value_pure, balances_answer, keeps_main, State.dropped,
        State.waiting, List.length_drop, Position.held, held, Position.due, due, h, Option.toList_none, List.length_nil]
      exact ⟨by omega, by omega, nofun⟩

theorem balances_turn (f : Framer State) : (Position.main (.tagged f)).Balances (turn f).value := by
  unfold turn
  split
  · next h => exact balances_seekTurn h
  · next h => exact balances_scanTurn h
  · next h => exact balances_discardTurn h

end Tagged

/-! ## Lines -/

namespace Newline

variable {f g : Framer State} {p : Position}

@[simp] theorem balances_answer {frame : Option Frame} :
    p.Balances (answer g frame) ↔ p.Keeps (.main (.newline g)) frame.toList.length := Iff.rfl

@[simp] theorem keeps_main {frames : Nat} : p.Keeps (.main (.newline g)) frames ↔
    g.state.dropped + g.buffer.length + g.discarded ≤ p.held ∧ frames + g.buffer.length ≤ p.due ∧ Inside g :=
  Position.keeps_iff

theorem add_lt_length_of_findIdx? {s : Bytes} {n offset : Nat} (h : (s.drop n).findIdx? isLineFeed = some offset) :
    n + offset < s.length := by
  have hlt := lt_length_of_findIdx? h
  rw [List.length_drop] at hlt
  omega

theorem toNat_endsWithReturn_le (s : Bytes) : (endsWithReturn s).toNat ≤ s.length := by
  cases s with
  | nil => exact Nat.le_refl 0
  | cons b s => exact Nat.le_trans (Bool.toNat_le _) (Nat.succ_pos _)

theorem balances_scanTurn {checked : Nat} (h : f.state = .scanning checked) :
    (Position.main (.newline f)).Balances (scanTurn f checked).value := by
  cases hfound : (f.buffer.drop checked).findIdx? isLineFeed with
  | some offset =>
      have hlt := add_lt_length_of_findIdx? hfound
      generalize hline : trimReturn (f.buffer.take (checked + offset + 1)).dropLast = line
      by_cases hlong : f.limit < line.length
      · simp [scanTurn, hfound, hline, hlong, h, Inside]
        omega
      · cases hblank : line.all Bytes.isBlank with
        | true => simp [scanTurn, hfound, hline, hlong, hblank, h, Inside, -List.all_eq_true]
        | false =>
            simp [scanTurn, hfound, hline, hlong, hblank, h, Inside, -List.all_eq_true]
            omega
  | none =>
      have hreturn := toNat_endsWithReturn_le f.buffer
      by_cases hlong : f.limit < f.buffer.length - (endsWithReturn f.buffer).toNat <;>
        simp [scanTurn, hfound, hlong, h, Inside, hreturn]

theorem balances_discardTurn {skipped : Nat} {afterReturn : Bool} (h : f.state = .discarding skipped afterReturn)
    (hinside : Inside f) : (Position.main (.newline f)).Balances (discardTurn f skipped afterReturn).value := by
  rw [Inside, h] at hinside
  cases hfound : f.buffer.findIdx? isLineFeed with
  | some stop =>
      have hlt := lt_length_of_findIdx? hfound
      by_cases hstop : stop = 0 <;> simp [discardTurn, hfound, hstop, h, Inside] <;> omega
  | none =>
      cases hlast : f.buffer.getLast? with
      | some last =>
          have hne : f.buffer ≠ [] := fun hnil => by simp [hnil] at hlast
          have hpos := List.length_pos_iff.mpr hne
          have hreturn := Bool.toNat_le (isReturn last)
          simp [discardTurn, hfound, hlast, h, Inside]
          omega
      | none => simp [discardTurn, hfound, hlast, h, Inside, hinside]

theorem balances_turn (f : Framer State) (hinside : Inside f) :
    (Position.main (.newline f)).Balances (turn f).value := by
  unfold turn
  split
  · next h => exact balances_scanTurn h
  · next h => exact balances_discardTurn h hinside

end Newline

/-! ## Counted records -/

namespace OctetCounting

variable {f g : Framer State} {p : Position}

@[simp] theorem balances_answer {given : Except Desync (Option Frame)} :
    p.Balances (answer g given) ↔ p.Keeps (.main (.octetCounting g)) (handedFrames given).length := Iff.rfl

@[simp] theorem balances_goOn : p.Balances (goOn g) ↔ p.Keeps (.main (.octetCounting g)) 0 := Iff.rfl

@[simp] theorem keeps_main {frames : Nat} : p.Keeps (.main (.octetCounting g)) frames ↔
    g.buffer.length + g.discarded ≤ p.held ∧ frames + (g.buffer.length + g.state.waiting) ≤ p.due := by
  rw [Position.keeps_iff]
  simp [Position.Inside, Decoder.Inside]

theorem balances_headerTurn (h : f.state = .header) :
    (Position.main (.octetCounting f)).Balances (headerTurn f).value := by
  have hskip : (f.buffer.dropWhile Bytes.isBlank).length ≤ f.buffer.length := (List.dropWhile_sublist _).length_le
  rw [value_headerTurn]
  simp only
  generalize f.buffer.dropWhile Bytes.isBlank = buffer at hskip ⊢
  split
  · simp [h, handedFrames]
    omega
  · simp [h, handedFrames]
    omega
  · next length taken hread =>
      obtain ⟨htaken, hbuffer⟩ := taken_pos hread
      split <;> simp [h, handedFrames] <;> omega

theorem balances_bodyTurn {length : Nat} (h : f.state = .body length) :
    (Position.main (.octetCounting f)).Balances (bodyTurn f length).value := by
  by_cases hshort : f.buffer.length < length
  · simp [bodyTurn, hshort, h, handedFrames]
  · simp [bodyTurn, hshort, h, handedFrames]
    omega

theorem balances_skipTurn {remaining : Nat} (h : f.state = .skip remaining) :
    (Position.main (.octetCounting f)).Balances (skipTurn f remaining).value := by
  by_cases hshort : min remaining f.buffer.length < remaining <;>
    simp [skipTurn, hshort, h, handedFrames]

theorem balances_turn (f : Framer State) : (Position.main (.octetCounting f)).Balances (turn f).value := by
  unfold turn
  split
  · next h => exact balances_headerTurn h
  · next h => exact balances_bodyTurn h
  · next h => exact balances_skipTurn h

end OctetCounting

end LogIntake
