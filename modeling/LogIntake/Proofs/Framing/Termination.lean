import LogIntake.Proofs.Framing.Progress
import LogIntake.Proofs.Framing.Usage

/-!
# Calls come to an end

A loop ends if its turns lower a measure (`Turn.Ends.exists_of_measure`). This is so of the turns of one call, and of
the calls of a decoder that is asked as long as it hands out frames. In its use a decoder hands out no more frames than
it has been fed bytes (`Decoder.draining_ends`).
-/

namespace LogIntake

namespace Turn.Ends

variable {σ α : Type} {turn : σ → Turn σ α}

/-- A loop ends with the answer of where it begins if each of its turns does, or lowers a measure and keeps the
answer. -/
theorem exists_of_measure {measure : σ → Nat} {answer : σ → α}
    (hturn : ∀ s, match turn s with
      | .again t => answer t = answer s ∧ measure t < measure s
      | .done a => a = answer s) (s : σ) :
    ∃ states, Ends turn s states (answer s) ∧ states.length ≤ measure s + 1 := by
  induction hmeasure : measure s using Nat.strongRecOn generalizing s with
  | ind n ih =>
      have hs := hturn s
      cases hnext : turn s with
      | done a =>
          rw [hnext] at hs
          exact ⟨[s], .done (hs ▸ hnext), by simp⟩
      | again t =>
          rw [hnext] at hs
          obtain ⟨hanswer, hless⟩ := hs
          obtain ⟨states, hends, hlength⟩ := ih (measure t) (hmeasure ▸ hless) t rfl
          refine ⟨s :: states, .again hnext (hanswer ▸ hends), ?_⟩
          rw [List.length_cons]
          omega

end Turn.Ends

/-! ## Ends of stream -/

theorem Tagged.finish_of_none {f g : Framer State} (h : next f = (g, none)) : finish f = (close g).value := by
  cases hstate : g.state with
  | seeking junk =>
      cases junk with
      | zero =>
          simp only [finish, h, close, hstate]
          rfl
      | succ junk =>
          simp only [finish, h, close, hstate]
          rfl
  | inRecord scanned =>
      simp only [finish, h, close, hstate]
      rfl
  | discarding skipped =>
      simp only [finish, h, close, hstate]
      rfl

theorem Newline.finish_of_none {f g : Framer State} (h : next f = (g, none)) :
    finish f = ((close g).value, none) := by
  cases hstate : g.state <;> simp only [finish, h, close, hstate] <;> rfl

theorem OctetCounting.finish_of_none {f g : Framer State} (h : next f = (g, .ok none)) :
    finish f = ((close g).value, .ok none) := by
  cases hstate : g.state <;> simp only [finish, h, close, hstate] <;> rfl

/-! ## Calls -/

namespace Decoder

/-- What a call makes of the answer to the bytes received so far. -/
def conclude (ended : Bool) : Decoder × Except Desync (Option Frame) → Decoder × Except Desync (Option Frame)
  | (d, .ok none) => if ended then d.close.value else (d, .ok none)
  | answer => answer

theorem value_callTurn (ended : Bool) (p : Position) :
    (callTurn ended p).value = match p.turn.value with
      | .again q => .again q
      | .done answer => .done (conclude ended answer) := by
  rw [callTurn, Checked.value_bind]
  cases p.turn.value with
  | again q => rfl
  | done answer =>
      obtain ⟨d, given⟩ := answer
      cases given with
      | error desync => rfl
      | ok frame =>
          cases frame with
          | none => cases ended <;> rfl
          | some frame => rfl

theorem conclude_false (answer : Decoder × Except Desync (Option Frame)) : conclude false answer = answer := by
  obtain ⟨d, given⟩ := answer
  cases given with
  | error desync => rfl
  | ok frame => cases frame <;> rfl

theorem conclude_true_next (d : Decoder) : conclude true d.next = d.finish := by
  cases d with
  | tagged f =>
      rw [next, finish]
      cases hnext : Tagged.next f with
      | mk g frame =>
          cases frame with
          | some frame => simp only [Tagged.finish, hnext, conclude]
          | none => rw [Tagged.finish_of_none hnext]; rfl
  | newline f =>
      rw [next, finish]
      cases hnext : Newline.next f with
      | mk g frame =>
          cases frame with
          | some frame => simp only [Newline.finish, hnext, conclude]
          | none => rw [Newline.finish_of_none hnext]; rfl
  | octetCounting f =>
      rw [next, finish]
      cases hnext : OctetCounting.next f with
      | mk g given =>
          cases given with
          | error desync => simp only [OctetCounting.finish, hnext, conclude]
          | ok frame =>
              cases frame with
              | some frame => simp only [OctetCounting.finish, hnext, conclude]
              | none => rw [OctetCounting.finish_of_none hnext]; rfl

theorem conclude_next (ended : Bool) (d : Decoder) : conclude ended d.next = d.call ended := by
  cases ended with
  | false => exact conclude_false _
  | true => exact conclude_true_next d

/-- A call ends, from any position. -/
theorem exists_runs (ended : Bool) (p : Position) :
    ∃ positions, Runs ended p positions (conclude ended p.answer) ∧ positions.length ≤ p.weight + 1 := by
  refine @Turn.Ends.exists_of_measure _ _ _ Position.weight (fun p => conclude ended p.answer) (fun p => ?_) p
  have hleads := leads_turn p
  rw [value_callTurn]
  cases hturn : p.turn.value with
  | again q =>
      rw [hturn] at hleads
      exact ⟨congrArg (conclude ended) hleads.1, hleads.2⟩
  | done answer =>
      rw [hturn] at hleads
      exact congrArg (conclude ended) hleads

theorem weight_main_le (d : Decoder) : (Position.main d).weight ≤ 2 * d.buffer.length + 1 := by
  cases d with
  | tagged f => cases hstate : f.state <;> simp [Position.weight, buffer, hstate]
  | newline f => exact Nat.le_succ _
  | octetCounting f => cases hstate : f.state <;> simp [Position.weight, buffer, hstate]

/-! ## One call after the other -/

/-- Another call, unless the last one has handed out no frame. -/
def repeatTurn (ended : Bool) (d : Decoder) : Turn Decoder (Decoder × Option Desync) :=
  match d.call ended with
  | (e, .ok (some _)) => .again e
  | (e, .ok none) => .done (e, none)
  | (e, .error desync) => .done (e, some desync)

/-- All calls until one hands out no frame. -/
def emptied (ended : Bool) (d : Decoder) : Decoder × Option Desync :=
  let (e, harvest) := if ended then d.drainEnd else d.drain
  (e, harvest.desync)

theorem weight_call {ended : Bool} {d e : Decoder} {frame : Frame} (h : d.call ended = (e, .ok (some frame))) :
    e.weight < d.weight := by
  cases ended with
  | false => exact weight_next h
  | true => exact weight_finish h

theorem emptied_eq (ended : Bool) (d : Decoder) :
    emptied ended d = match d.call ended with
      | (e, .ok (some _)) => emptied ended e
      | (e, .ok none) => (e, none)
      | (e, .error desync) => (e, some desync) := by
  cases ended with
  | false =>
      simp only [emptied, call, Bool.false_eq_true, if_false]
      rw [drain]
      split
      · next hnext =>
          rw [hnext]
          rfl
      · next hnext => rw [hnext]
      · next hnext => rw [hnext]
  | true =>
      simp only [emptied, call, if_true]
      rw [drainEnd]
      split
      · next hfinish =>
          rw [hfinish]
          rfl
      · next hfinish => rw [hfinish]
      · next hfinish => rw [hfinish]

theorem weight_le (d : Decoder) : d.weight ≤ 2 * d.buffer.length + 1 := by
  cases d with
  | tagged f =>
      simp only [weight, Tagged.weight, buffer]
      split <;> omega
  | newline f =>
      simp only [weight, buffer]
      omega
  | octetCounting f =>
      simp only [weight, OctetCounting.weight, buffer]
      split <;> omega

theorem exists_repeats (ended : Bool) (d : Decoder) :
    ∃ decoders, Turn.Ends (repeatTurn ended) d decoders (emptied ended d) ∧ decoders.length ≤ d.weight + 1 := by
  refine Turn.Ends.exists_of_measure (fun d => ?_) d
  have hemptied := emptied_eq ended d
  rw [repeatTurn]
  cases hcall : d.call ended with
  | mk e given =>
      rw [hcall] at hemptied
      cases given with
      | error desync => exact hemptied.symm
      | ok frame =>
          cases frame with
          | none => exact hemptied.symm
          | some frame => exact ⟨hemptied.symm, weight_call hcall⟩

/-! ## What calls keep -/

theorem Position.Keeps.trans {p q r : Position} {m n : Nat} (h : p.Keeps q m) (h' : q.Keeps r n) :
    p.Keeps r (m + n) := by
  refine ⟨Nat.le_trans h'.held h.held, ?_, h'.inside⟩
  have hfirst := h.due
  have hnext := h'.due
  omega

theorem balances_turn {p : Position} (h : p.Inside) : p.Balances p.turn.value := by
  cases p with
  | main d =>
      cases d with
      | tagged f => exact Tagged.balances_turn f
      | newline f => exact Newline.balances_turn f h
      | octetCounting f => exact OctetCounting.balances_turn f
  | opening f junk => exact Tagged.balances_openTurn f junk

theorem keeps_close (d : Decoder) :
    (Position.main d).Keeps (.main d.close.value.1) (handedFrames d.close.value.2).length := by
  cases d with
  | tagged f =>
      cases hstate : f.state with
      | seeking junk =>
          cases junk <;> simp [close, Tagged.close, hstate, Framer.drop, handedFrames, Tagged.Inside] <;> omega
      | inRecord scanned =>
          simp [close, Tagged.close, hstate, Framer.drop, handedFrames, Tagged.Inside]
          omega
      | discarding skipped =>
          simp [close, Tagged.close, hstate, Framer.drop, handedFrames, Tagged.Inside]
          omega
  | newline f =>
      cases hstate : f.state <;>
        simp [close, Newline.close, hstate, Framer.drop, handedFrames, Newline.Inside] <;> omega
  | octetCounting f =>
      cases hstate : f.state <;>
        simp [close, OctetCounting.close, hstate, Framer.drop, handedFrames] <;> omega

theorem balances_callTurn (ended : Bool) {p : Position} (h : p.Inside) : p.Balances (callTurn ended p).value := by
  have hbalances := balances_turn h
  rw [value_callTurn]
  cases hturn : p.turn.value with
  | again q => rwa [hturn] at hbalances
  | done answer =>
      rw [hturn] at hbalances
      obtain ⟨d, given⟩ := answer
      cases given with
      | error desync => exact hbalances
      | ok frame =>
          cases frame with
          | some frame => exact hbalances
          | none =>
              cases ended with
              | false => exact hbalances
              | true =>
                  have hclose := hbalances.trans (keeps_close d)
                  rwa [handedFrames, Option.toList_none, List.length_nil, Nat.zero_add] at hclose

theorem keeps_of_runs {ended : Bool} {p : Position} {positions : List Position}
    {answer : Decoder × Except Desync (Option Frame)} (hruns : Runs ended p positions answer) (h : p.Inside) :
    p.Keeps (.main answer.1) (handedFrames answer.2).length := by
  induction hruns with
  | @done p answer hdone =>
      have hbalances := balances_callTurn ended h
      rwa [hdone] at hbalances
  | @again p q positions answer hagain hmore ih =>
      have hbalances := balances_callTurn ended h
      rw [hagain] at hbalances
      have htrans := hbalances.trans (ih hbalances.inside)
      rwa [Nat.zero_add] at htrans

theorem exists_runs_call (ended : Bool) (d : Decoder) :
    ∃ positions, Runs ended (.main d) positions (d.call ended) ∧ positions.length ≤ (Position.main d).weight + 1 := by
  rw [← conclude_next]
  exact exists_runs ended (.main d)

theorem keeps_call (ended : Bool) {d : Decoder} (h : d.Inside) :
    (Position.main d).Keeps (.main (d.call ended).1) (handedFrames (d.call ended).2).length := by
  obtain ⟨positions, hruns, -⟩ := exists_runs_call ended d
  exact keeps_of_runs hruns h

/-- What has been handed out by some calls. -/
def given (answered : List (Except Desync (Option Frame))) : List Frame :=
  answered.flatMap handedFrames

theorem keeps_feed {d : Decoder} (h : d.Inside) (bytes : Bytes) :
    (d.feed bytes).held = d.held + bytes.length ∧ (d.feed bytes).due = d.due + bytes.length ∧
      (d.feed bytes).Inside := by
  cases d with
  | tagged f =>
      refine ⟨?_, ?_, fun scanned hs => ?_⟩
      · simp only [feed, Framer.feed, held, List.length_append]
        omega
      · simp only [feed, Framer.feed, due, List.length_append]
        omega
      · have hle := h scanned hs
        simp only [Framer.feed, List.length_append]
        omega
  | newline f =>
      refine ⟨?_, ?_, ?_⟩
      · simp only [feed, Framer.feed, held, List.length_append]
        omega
      · simp only [feed, Framer.feed, due, List.length_append]
      · simp only [feed, Framer.feed, Inside, Newline.Inside, List.length_append] at h ⊢
        split at h
        · omega
        · exact h
  | octetCounting f =>
      refine ⟨?_, ?_, trivial⟩
      · simp only [feed, Framer.feed, held, List.length_append]
        omega
      · simp only [feed, Framer.feed, due, List.length_append]
        omega

theorem keeps_operate {d : Decoder} (h : d.Inside) (op : Operation) :
    (d.operate op).1.held ≤ d.held + op.bytes.length ∧
      (given (d.operate op).2).length + (d.operate op).1.due ≤ d.due + op.bytes.length ∧ (d.operate op).1.Inside := by
  cases op with
  | feed bytes =>
      obtain ⟨hheld, hdue, hinside⟩ := keeps_feed h bytes
      refine ⟨Nat.le_of_eq hheld, ?_, hinside⟩
      rw [operate, given, List.flatMap_nil, List.length_nil, Nat.zero_add]
      exact Nat.le_of_eq hdue
  | next =>
      obtain ⟨hheld, hdue, hinside⟩ := keeps_call false h
      refine ⟨hheld, ?_, hinside⟩
      rw [operate, given, List.flatMap_singleton]
      exact hdue
  | finish =>
      obtain ⟨hheld, hdue, hinside⟩ := keeps_call true h
      refine ⟨hheld, ?_, hinside⟩
      rw [operate, given, List.flatMap_singleton]
      exact hdue

/-- In use a decoder holds no more bytes, and owes no more frames, than it has been fed. -/
theorem keeps_use {d : Decoder} (h : d.Inside) (ops : List Operation) :
    (d.use ops).1.held ≤ d.held + (fed ops).length ∧
      (given (d.use ops).2).length + (d.use ops).1.due ≤ d.due + (fed ops).length ∧ (d.use ops).1.Inside := by
  induction ops generalizing d with
  | nil => exact ⟨Nat.le_refl _, by simp [use, given], h⟩
  | cons op ops ih =>
      obtain ⟨hheld, hdue, hinside⟩ := keeps_operate h op
      obtain ⟨hheld', hdue', hinside'⟩ := ih hinside
      rw [use_cons]
      simp only [given, fed, List.flatMap_append, List.flatMap_cons, List.length_append] at hdue hdue' hheld' ⊢
      exact ⟨by omega, by omega, hinside'⟩

theorem start_keeps (framing : Framing) (limit : Nat) :
    (start framing limit).held = 0 ∧ (start framing limit).due = 0 ∧ (start framing limit).Inside := by
  cases framing with
  | tagged => exact ⟨rfl, rfl, nofun⟩
  | newline => exact ⟨rfl, rfl, Nat.le_refl _⟩
  | octetCounting => exact ⟨rfl, rfl, trivial⟩

/-- Whatever its state and its buffer, a call of a decoder ends, and so do repeated calls; and in use a decoder hands
out no more frames than it has been fed bytes. -/
theorem draining_ends :
    (∀ (ended : Bool) (d : Decoder),
        (∃ positions, Runs ended (.main d) positions (d.call ended) ∧ positions.length ≤ 2 * d.buffer.length + 2) ∧
        ∃ decoders, Turn.Ends (repeatTurn ended) d decoders (emptied ended d) ∧
          decoders.length ≤ 2 * d.buffer.length + 2) ∧
      ∀ (framing : Framing) (limit : Nat) (ops : List Operation),
        (given ((start framing limit).use ops).2).length ≤ (fed ops).length := by
  refine ⟨fun ended d => ⟨?_, ?_⟩, fun framing limit ops => ?_⟩
  · obtain ⟨positions, hruns, hlength⟩ := exists_runs_call ended d
    exact ⟨positions, hruns, Nat.le_trans hlength (Nat.succ_le_succ (weight_main_le d))⟩
  · obtain ⟨decoders, hends, hlength⟩ := exists_repeats ended d
    exact ⟨decoders, hends, Nat.le_trans hlength (Nat.succ_le_succ (weight_le d))⟩
  · obtain ⟨-, hdue, hinside⟩ := start_keeps framing limit
    have hgiven := (keeps_use hinside ops).2.1
    omega

end Decoder

end LogIntake
