import LogIntake.Proofs.Framing.Termination

/-!
# Calls make no operation that fails

As long as a decoder has been fed fewer than `2 ^ 63` bytes, no operation of its calls can fail: the positions in the
buffer that it remembers are inside of it, and what it counts are bytes that it has been fed (`Decoder.inBounds_use`).
-/

namespace LogIntake

open Decoder

/-! ## Tagged records -/

namespace Tagged

variable {f : Framer State} {junk : Nat}

theorem safe_seekTurn (f : Framer State) (junk : Nat) : (seekTurn f junk).safe := by
  by_cases hjunk : junk = 0 <;> simp [seekTurn, hjunk]

theorem safe_openTurn (h : (Position.opening f junk).held < 2 ^ 63) : (openTurn f junk).safe := by
  simp only [Position.held] at h
  unfold openTurn
  split
  · next hopen =>
      have hlen := (List.isPrefixOf_iff_prefix.mp hopen).length_le
      simp [hlen]
  · split
    · exact Checked.safe_pure _
    · cases hfound : Bytes.indexOf? openTag f.buffer with
      | some start =>
          have hlen := Bytes.le_length_of_indexOf? openTag_ne_nil hfound
          simp [Checked.value_find openTag_ne_nil, hfound, Checked.capacity]
          omega
      | none =>
          have hle := Bytes.overlap_le_length openTag f.buffer
          simp [Checked.value_find openTag_ne_nil, hfound, Checked.capacity, hle]
          omega

theorem safe_scanTurn {scanned : Nat} (hs : f.state = .inRecord scanned) (hinside : Inside f)
    (h : (Position.main (.tagged f)).held < 2 ^ 63) : (scanTurn f scanned).safe := by
  have hle := hinside scanned hs
  have hsix : closeTag.length = 6 := rfl
  have hfind := fun text => @Checked.value_find text closeTag closeTag_ne_nil
  simp only [Position.held, held] at h
  cases hfound : Bytes.indexOf? closeTag (f.buffer.drop (scanned - (closeTag.length - 1))) with
  | some offset =>
      have hlen := Bytes.le_length_of_indexOf? closeTag_ne_nil hfound
      rw [List.length_drop] at hlen
      by_cases hlimit : f.limit < scanned - (closeTag.length - 1) + offset <;>
        simp [scanTurn, hfind, hfound, hlimit, Checked.capacity] <;> omega
  | none =>
      have hoverlap := Bytes.overlap_le_length closeTag f.buffer
      by_cases hlimit : f.limit < f.buffer.length - Bytes.overlap closeTag f.buffer <;>
        simp [scanTurn, hfind, hfound, hlimit, hoverlap] <;> omega

theorem safe_discardTurn {skipped : Nat} (hs : f.state = .discarding skipped)
    (h : (Position.main (.tagged f)).held < 2 ^ 63) : (discardTurn f skipped).safe := by
  have hsix : closeTag.length = 6 := rfl
  have hfind := fun text => @Checked.value_find text closeTag closeTag_ne_nil
  simp only [Position.held, held, hs, State.dropped] at h
  cases hfound : Bytes.indexOf? closeTag f.buffer with
  | some stop =>
      have hlen := Bytes.le_length_of_indexOf? closeTag_ne_nil hfound
      simp [discardTurn, hfind, hfound, Checked.capacity]
      omega
  | none =>
      have hoverlap := Bytes.overlap_le_length closeTag f.buffer
      simp [discardTurn, hfind, hfound, hoverlap, Checked.capacity]
      omega

theorem safe_turn (hinside : Inside f) (h : (Position.main (.tagged f)).held < 2 ^ 63) : (turn f).safe := by
  unfold turn
  split
  · exact safe_seekTurn ..
  · next hs => exact safe_scanTurn hs hinside h
  · next hs => exact safe_discardTurn hs h

end Tagged

/-! ## Lines -/

namespace Newline

variable {f : Framer State}

theorem safe_scanTurn {checked : Nat} (hs : f.state = .scanning checked) (hinside : Inside f)
    (h : (Position.main (.newline f)).held < 2 ^ 63) : (scanTurn f checked).safe := by
  simp only [Position.held, held] at h
  rw [Inside, hs] at hinside
  cases hfound : (f.buffer.drop checked).findIdx? isLineFeed with
  | some offset =>
      have hlt := add_lt_length_of_findIdx? hfound
      generalize hline : trimReturn (f.buffer.take (checked + offset + 1)).dropLast = line
      by_cases hlong : f.limit < line.length
      · simp [scanTurn, hfound, hline, hlong, Checked.capacity]
        omega
      · cases hblank : line.all Bytes.isBlank <;>
          simp [scanTurn, hfound, hline, hlong, hblank, Checked.capacity, -List.all_eq_true] <;> omega
  | none =>
      have hreturn := toNat_endsWithReturn_le f.buffer
      by_cases hlong : f.limit < f.buffer.length - (endsWithReturn f.buffer).toNat <;>
        simp [scanTurn, hfound, hlong, hreturn, hinside]

theorem safe_discardTurn {skipped : Nat} {afterReturn : Bool} (hs : f.state = .discarding skipped afterReturn)
    (hinside : Inside f) (h : (Position.main (.newline f)).held < 2 ^ 63) :
    (discardTurn f skipped afterReturn).safe := by
  simp only [Position.held, held, hs, State.dropped] at h
  rw [Inside, hs] at hinside
  cases hfound : f.buffer.findIdx? isLineFeed with
  | some stop =>
      have hlt := lt_length_of_findIdx? hfound
      by_cases hstop : stop = 0
      · simp [discardTurn, hfound, hstop, Checked.capacity]
        omega
      · have hreturn := Bool.toNat_le (isReturn (f.buffer[stop - 1]?.getD 0))
        simp [discardTurn, hfound, hstop, Checked.capacity]
        omega
  | none =>
      cases hlast : f.buffer.getLast? with
      | some last =>
          simp [discardTurn, hfound, hlast, Checked.capacity]
          omega
      | none => simp [discardTurn, hfound, hlast]

theorem safe_turn (hinside : Inside f) (h : (Position.main (.newline f)).held < 2 ^ 63) : (turn f).safe := by
  unfold turn
  split
  · next hs => exact safe_scanTurn hs hinside h
  · next hs => exact safe_discardTurn hs hinside h

end Newline

/-! ## Counted records -/

namespace OctetCounting

variable {f : Framer State}

theorem safe_writesNone (digits : Bytes) : (writesNone digits).safe := by
  cases digits <;> simp [writesNone]

theorem safe_takeHeader (buffer : Bytes) : (takeHeader buffer).safe := by
  unfold takeHeader
  cases hspace : (buffer.take (maxDigits + 1)).findIdx? isSpace with
  | none =>
      by_cases hlong : maxDigits < buffer.length
      · simp [hlong]
      · simp [hlong]
  | some space =>
      have hten : maxDigits = 10 := rfl
      obtain ⟨hlt, -⟩ := List.findIdx?_eq_some_iff_getElem.mp hspace
      rw [List.length_take] at hlt
      cases hvalue : (writesNone (buffer.take space)).value <;>
        simp [safe_writesNone, hvalue, Checked.capacity] <;> omega

theorem safe_headerTurn (f : Framer State) : (headerTurn f).safe := by
  simp only [headerTurn, Checked.safe_bind, Checked.safe_skipWhile, Checked.value_skipWhile, true_and]
  generalize f.buffer.dropWhile Bytes.isBlank = buffer
  have hsafe := safe_takeHeader buffer
  cases hempty : buffer.isEmpty with
  | true => exact Checked.safe_pure _
  | false =>
      cases hread : (takeHeader buffer).value with
      | error desync => simp [hsafe, hread]
      | ok read =>
          cases read with
          | none => simp [hsafe, hread]
          | some read => by_cases hlimit : f.limit < read.1 <;> simp [hsafe, hread, hlimit]

theorem safe_bodyTurn (f : Framer State) (length : Nat) : (bodyTurn f length).safe := by
  by_cases hshort : f.buffer.length < length <;> simp [bodyTurn, hshort] <;> omega

theorem safe_skipTurn (f : Framer State) (remaining : Nat) : (skipTurn f remaining).safe := by
  refine ⟨Nat.min_le_right .., ?_⟩
  split
  · exact ⟨Nat.min_le_left .., trivial⟩
  · exact Checked.safe_pure _

theorem safe_turn (f : Framer State) : (turn f).safe := by
  unfold turn
  split
  · exact safe_headerTurn f
  · exact safe_bodyTurn ..
  · exact safe_skipTurn ..

end OctetCounting

/-! ## Calls -/

namespace Decoder

theorem safe_turn {p : Position} (hinside : p.Inside) (h : p.held < 2 ^ 63) : p.turn.safe := by
  cases p with
  | main d =>
      cases d with
      | tagged f => exact Tagged.safe_turn hinside h
      | newline f => exact Newline.safe_turn hinside h
      | octetCounting f => exact OctetCounting.safe_turn f
  | opening f junk => exact Tagged.safe_openTurn h

theorem safe_drop {σ : Type} {f : Framer σ} {pending : Nat} (state : σ)
    (h : pending + f.buffer.length + f.discarded < 2 ^ 63) : (f.drop pending state).safe := by
  simp [Framer.drop, Checked.capacity]
  omega

theorem safe_close {d : Decoder} (h : d.held < 2 ^ 63) : d.close.safe := by
  cases d with
  | tagged f =>
      refine ⟨?_, trivial⟩
      rw [held] at h
      unfold Tagged.close
      split
      · exact Checked.safe_pure _
      · next hstate =>
          rw [hstate] at h
          exact ⟨safe_drop _ h, trivial⟩
      · next hstate =>
          rw [hstate] at h
          exact ⟨safe_drop _ h, trivial⟩
      · next hstate =>
          rw [hstate] at h
          exact ⟨safe_drop _ h, trivial⟩
  | newline f =>
      refine ⟨?_, trivial⟩
      rw [held] at h
      unfold Newline.close
      split
      · next hstate =>
          rw [hstate] at h
          exact safe_drop _ h
      · next hstate =>
          rw [hstate] at h
          exact safe_drop _ h
  | octetCounting f =>
      refine ⟨?_, trivial⟩
      unfold OctetCounting.close
      split
      · exact Checked.safe_pure _
      · exact safe_drop _ (by rwa [Nat.zero_add])

theorem safe_callTurn {ended : Bool} {p : Position} (hinside : p.Inside) (h : p.held < 2 ^ 63) :
    (callTurn ended p).safe := by
  have hbalances := balances_turn hinside
  refine ⟨safe_turn hinside h, ?_⟩
  cases hturn : p.turn.value with
  | again q => exact Checked.safe_pure _
  | done answer =>
      rw [hturn] at hbalances
      obtain ⟨d, given⟩ := answer
      cases given with
      | error desync => exact Checked.safe_pure _
      | ok frame =>
          cases frame with
          | some frame => exact Checked.safe_pure _
          | none =>
              cases ended with
              | false => exact Checked.safe_pure _
              | true => exact ⟨safe_close (Nat.lt_of_le_of_lt hbalances.held h), trivial⟩

/-- No turn of a call makes an operation that fails. -/
theorem safe_of_runs {ended : Bool} {p : Position} {positions : List Position}
    {answer : Decoder × Except Desync (Option Frame)} (hruns : Runs ended p positions answer) (hinside : p.Inside)
    (h : p.held < 2 ^ 63) : ∀ q ∈ positions, (callTurn ended q).safe := by
  induction hruns with
  | @done p answer hdone => exact List.forall_mem_singleton.mpr (safe_callTurn hinside h)
  | @again p q positions answer hagain hmore ih =>
      have hbalances := balances_callTurn ended hinside
      rw [hagain] at hbalances
      refine List.forall_mem_cons.mpr ⟨safe_callTurn hinside h, ih hbalances.inside ?_⟩
      exact Nat.lt_of_le_of_lt hbalances.held h

/-! ## Decoders in use -/

/-- Whether a carriage return stands before a line feed that is found behind so many bytes; it may have been dropped. -/
def returnBefore (buffer : Bytes) (afterReturn : Bool) (stop : Nat) : Bool :=
  if stop = 0 then afterReturn else Newline.isReturn (buffer.getD (stop - 1) 0)

/-- What a decoder remembers of its buffer is right for it, and no call makes an operation that fails. -/
structure InBounds (d : Decoder) : Prop where
  scanned : ∀ f scanned, d = .tagged f → f.state = .inRecord scanned → scanned ≤ f.buffer.length
  checked : ∀ f checked, d = .newline f → f.state = .scanning checked → checked ≤ f.buffer.length
  /-- The size of a line that is too long leaves out one carriage return that it has. -/
  size : ∀ f skipped afterReturn stop, d = .newline f → f.state = .discarding skipped afterReturn →
    (returnBefore f.buffer afterReturn stop).toNat ≤ skipped + stop
  /-- What may be the beginning of a tag is a part of the buffer, also when bytes have been taken off it. -/
  overlap : ∀ buffer tag, (Checked.overlap buffer tag).value ≤ buffer.length
  calls : ∀ ended, ∃ positions, Runs ended (.main d) positions (d.call ended) ∧
    ∀ p ∈ positions, (callTurn ended p).safe

theorem Inside.inBounds {d : Decoder} (h : d.Inside) (hheld : d.held < 2 ^ 63) : d.InBounds where
  scanned f scanned hd hs := by
    subst hd
    exact h scanned hs
  checked f checked hd hs := by
    subst hd
    simpa only [Inside, Newline.Inside, hs] using h
  size f skipped afterReturn stop hd hs := by
    subst hd
    simp only [Inside, Newline.Inside, hs] at h
    unfold returnBefore
    split
    · omega
    · next hpos => exact Nat.le_trans (Bool.toNat_le _) (by omega)
  overlap buffer tag := by
    rw [Checked.value_overlap]
    exact Bytes.overlap_le_length tag buffer
  calls ended := by
    obtain ⟨positions, hruns, -⟩ := exists_runs_call ended d
    exact ⟨positions, hruns, safe_of_runs hruns h hheld⟩

/-- In any use of a decoder that has been fed fewer than `2 ^ 63` bytes, no operation of a call fails. -/
theorem inBounds_use (framing : Framing) (limit : Nat) (ops : List Operation) (h : (fed ops).length < 2 ^ 63) :
    ((start framing limit).use ops).1.InBounds := by
  obtain ⟨hheld, -, hinside⟩ := start_keeps framing limit
  obtain ⟨hkept, -, hlast⟩ := keeps_use hinside ops
  exact hlast.inBounds (by omega)

/-- A record is cut off inside of its close tag, and the decoder goes on with another one behind the end. -/
theorem inBounds_use_cut_off :
    let ops := [.feed [60, 114, 101, 99, 62, 97, 60, 47], .next, .finish, .feed [60, 114, 101, 99, 62, 98], .next]
    (fed ops).length < 2 ^ 63 ∧
      ((start .tagged 0).use ops).1 = .tagged ⟨0, .discarding 1, [], 3⟩ ∧ ((start .tagged 0).use ops).1.InBounds :=
  ⟨by decide, by decide, inBounds_use .tagged 0 _ (by decide)⟩

end Decoder

end LogIntake
