import LogIntake.Proofs.Framing.Termination

/-!
# Searches go on where they stopped

What a decoder has searched in vain it drops, or it remembers a position in its buffer from which to go on. In any use,
at each turn of each call, no tag has a byte among those that were dropped in search of it, and a search from the
position on finds what a search of the whole buffer would.
-/

namespace LogIntake

/-! ## Bytes that are passed over -/

namespace Bytes

variable {pattern s rest : Bytes} {n k : Nat}

/-- Of a stream `rest` is left to search, the `n` bytes before it are dropped, and whatever comes, each occurrence of
the pattern ends before these or begins behind them. -/
def Passed (pattern s : Bytes) (n : Nat) (rest : Bytes) : Prop :=
  ∃ before dropped, s = before ++ (dropped ++ rest) ∧ dropped.length = n ∧
    ∀ more i, OccursAt pattern (s ++ more) i → i + pattern.length ≤ before.length ∨ before.length + n ≤ i

theorem passed_self (pattern s : Bytes) : Passed pattern s 0 s :=
  ⟨[], [], rfl, rfl, fun _ i _ => .inr (Nat.zero_le i)⟩

theorem Passed.suffix (h : Passed pattern s n rest) : rest <:+ s := by
  obtain ⟨before, dropped, rfl, -, -⟩ := h
  rw [← List.append_assoc]
  exact List.suffix_append ..

theorem Passed.append (h : Passed pattern s n rest) (bytes : Bytes) :
    Passed pattern (s ++ bytes) n (rest ++ bytes) := by
  obtain ⟨before, dropped, hs, hlength, hoccurs⟩ := h
  refine ⟨before, dropped, by simp [hs], hlength, ?_⟩
  intro more i ho
  rw [List.append_assoc] at ho
  exact hoccurs _ i ho

/-- What has been dropped may be reported. -/
theorem Passed.reported (h : Passed pattern s n rest) : Passed pattern s 0 rest := by
  obtain ⟨before, dropped, hs, hlength, hoccurs⟩ := h
  refine ⟨before ++ dropped, [], by simp [hs], rfl, ?_⟩
  intro more i ho
  rw [List.length_append, hlength]
  rcases hoccurs more i ho with hbefore | hbehind
  · exact .inl (by omega)
  · exact .inr hbehind

/-- Where no occurrence begins, more bytes may be dropped. -/
theorem Passed.drop (h : Passed pattern s n rest) (hk : k ≤ rest.length)
    (hnone : ∀ more, ∀ j < k, ¬ OccursAt pattern (rest ++ more) j) : Passed pattern s (n + k) (rest.drop k) := by
  obtain ⟨before, dropped, hs, hlength, hoccurs⟩ := h
  refine ⟨before, dropped ++ rest.take k, ?_, ?_, ?_⟩
  · rw [List.append_assoc, List.take_append_drop, hs]
  · rw [List.length_append, hlength, List.length_take_of_le hk]
  · intro more i ho
    rcases hoccurs more i ho with hbefore | hbehind
    · exact .inl hbefore
    · obtain ⟨j, rfl⟩ := Nat.exists_eq_add_of_le hbehind
      have hrest : (s ++ more).drop (before.length + n) = rest ++ more := by simp [hs, ← hlength]
      rw [← occursAt_drop_iff, hrest] at ho
      have hj : k ≤ j := Nat.le_of_not_lt fun hlt => hnone more j hlt ho
      exact .inr (by omega)

theorem Passed.found (h : Passed pattern s n rest) (hp : pattern ≠ []) (hfound : indexOf? pattern rest = some k) :
    Passed pattern s (n + k) (rest.drop k) := by
  have hle := le_length_of_indexOf? hp hfound
  apply h.drop (by omega)
  intro more j hj
  have hmore : indexOf? pattern (rest ++ more) = some k := indexOf?_append_of_some hp hfound
  exact ((indexOf?_eq_some_iff hp).mp hmore).2 j hj

theorem Passed.settled (h : Passed pattern s n rest) (hp : pattern ≠ []) (hnone : indexOf? pattern rest = none) :
    Passed pattern s (n + settled pattern rest) (rest.drop (Bytes.settled pattern rest)) := by
  apply h.drop (settled_le ..)
  intro more j hj
  exact not_occursAt_of_lt_settled hp hnone hj

/-- A byte that the pattern holds at its end at most cannot stand between two bytes of an occurrence. -/
theorem passed_behind {b : UInt8} (hb : b ∉ pattern.dropLast) (h : b :: rest <:+ s) : Passed pattern s 0 rest := by
  obtain ⟨before, rfl⟩ := h
  refine ⟨before ++ [b], [], by simp, rfl, ?_⟩
  intro more i ho
  rw [List.length_append, List.length_singleton]
  rcases Nat.lt_or_ge before.length i with hbehind | hi
  · exact .inr hbehind
  · left
    apply Nat.le_of_not_lt
    intro hlong
    obtain ⟨j, hj⟩ := Nat.exists_eq_add_of_le hi
    have hlast : j < pattern.dropLast.length := by rw [List.length_dropLast]; omega
    have hbyte : pattern.dropLast[j] = b := by
      have hat := List.prefix_iff_getElem?.mp ho j (by omega)
      rw [List.getElem?_drop, ← hj] at hat
      simpa using hat.symm
    exact hb (hbyte ▸ List.getElem_mem hlast)

theorem OccursAt.append_drop_suffix {i : Nat} (h : OccursAt pattern s i) :
    pattern ++ s.drop (i + pattern.length) <:+ s := by
  obtain ⟨behind, hbehind⟩ := h
  have hdrop : s.drop (i + pattern.length) = behind := by
    rw [← List.drop_drop, ← hbehind, List.drop_left]
  rw [hdrop, hbehind]
  exact List.drop_suffix ..

end Bytes

open Decoder

/-! ## Positions that are reached -/

/-- What holds of a decoder of tagged records that reads a stream. -/
def Tagged.Reached (s : Bytes) (f : Framer State) : Prop :=
  match f.state with
  | .seeking junk => Bytes.Passed openTag s junk f.buffer
  | .inRecord scanned =>
    openTag ++ f.buffer <:+ s ∧ scanned ≤ f.buffer.length ∧ Bytes.indexOf? closeTag (f.buffer.take scanned) = none
  | .discarding skipped => Bytes.Passed closeTag s skipped f.buffer

def Newline.Reached (f : Framer State) : Prop :=
  ∀ checked, f.state = .scanning checked →
    checked ≤ f.buffer.length ∧ (f.buffer.take checked).findIdx? isLineFeed = none

namespace Decoder

def Position.Reached (s : Bytes) : Position → Prop
  | .main (.tagged f) => Tagged.Reached s f
  | .main (.newline f) => Newline.Reached f
  | .main (.octetCounting _) => True
  | .opening f junk => Bytes.Passed Tagged.openTag s junk f.buffer

/-- A turn leads to positions that are reached in the same stream. -/
def Reaches (s : Bytes) : Outcome → Prop
  | .again p => p.Reached s
  | .done (d, _) => (Position.main d).Reached s

section

variable {s : Bytes} {junk : Nat}

@[simp] theorem reached_tagged {f : Framer Tagged.State} :
    (Position.main (.tagged f)).Reached s ↔ Tagged.Reached s f := Iff.rfl

@[simp] theorem reached_newline {f : Framer Newline.State} :
    (Position.main (.newline f)).Reached s ↔ Newline.Reached f := Iff.rfl

@[simp] theorem reached_opening {f : Framer Tagged.State} :
    (Position.opening f junk).Reached s ↔ Bytes.Passed Tagged.openTag s junk f.buffer := Iff.rfl

@[simp] theorem reaches_again {p : Position} : Reaches s (.again p) ↔ p.Reached s := Iff.rfl

end

end Decoder

/-! ## Tagged records -/

namespace Tagged

variable {f g : Framer State} {s : Bytes} {junk i : Nat}

@[simp] theorem reaches_answer {frame : Option Frame} : Reaches s (answer g frame) ↔ Reached s g := Iff.rfl

@[simp] theorem reaches_goOn : Reaches s (goOn g) ↔ Reached s g := Iff.rfl

@[simp] theorem reached_seeking {limit discarded : Nat} {buffer : Bytes} :
    Reached s ⟨limit, .seeking junk, buffer, discarded⟩ ↔ Bytes.Passed openTag s junk buffer := Iff.rfl

@[simp] theorem reached_discarding {limit discarded skipped : Nat} {buffer : Bytes} :
    Reached s ⟨limit, .discarding skipped, buffer, discarded⟩ ↔ Bytes.Passed closeTag s skipped buffer := Iff.rfl

theorem passed_of_opened {rest : Bytes} (h : openTag ++ rest <:+ s) : Bytes.Passed closeTag s 0 rest := by
  have hlast : 62 :: rest <:+ openTag ++ rest := ⟨[60, 114, 101, 99], rfl⟩
  exact Bytes.passed_behind (by decide) (hlast.trans h)

theorem passed_of_closed {buffer : Bytes} (h : Bytes.indexOf? closeTag buffer = some i) (hs : buffer <:+ s) :
    Bytes.Passed openTag s 0 (buffer.drop (i + closeTag.length)) := by
  have hat := ((Bytes.indexOf?_eq_some_iff closeTag_ne_nil).mp h).1
  have hlast : 62 :: buffer.drop (i + closeTag.length) <:+ closeTag ++ buffer.drop (i + closeTag.length) :=
    ⟨[60, 47, 114, 101, 99], rfl⟩
  exact Bytes.passed_behind (by decide) ((hlast.trans hat.append_drop_suffix).trans hs)

theorem reached_opened {buffer : Bytes} (h : openTag ++ buffer <:+ s) :
    Reached s { f with buffer, state := .inRecord 0 } :=
  ⟨h, Nat.zero_le _, rfl⟩

theorem isBlank_of_mem_openTag : ∀ b ∈ openTag.dropLast, Bytes.isBlank b = false := by
  intro b hb
  have hall : openTag.dropLast.all (fun b => !Bytes.isBlank b) = true := rfl
  simpa using List.all_eq_true.mp hall b hb

/-- A tag has no blank in it. -/
theorem passed_searched (h : Bytes.Passed openTag s junk f.buffer) :
    Bytes.Passed openTag s junk (searched f junk) := by
  unfold searched
  split
  · next hjunk =>
      subst hjunk
      rcases List.eq_nil_or_concat (f.buffer.takeWhile Bytes.isBlank) with hnil | ⟨front, b, hfront⟩
      · have hsame : f.buffer.dropWhile Bytes.isBlank = f.buffer := by
          have hsplit := List.takeWhile_append_dropWhile (p := Bytes.isBlank) (l := f.buffer)
          rwa [hnil, List.nil_append] at hsplit
        rwa [hsame]
      · have hblank : Bytes.isBlank b = true := by
          have hall := List.all_takeWhile (p := Bytes.isBlank) (l := f.buffer)
          rw [hfront] at hall
          simpa using (List.all_eq_true.mp hall) b (by simp)
        have hlast : b :: f.buffer.dropWhile Bytes.isBlank <:+ f.buffer := by
          refine ⟨front, ?_⟩
          have hsplit := List.takeWhile_append_dropWhile (p := Bytes.isBlank) (l := f.buffer)
          rw [hfront] at hsplit
          simpa using hsplit
        apply Bytes.passed_behind _ (hlast.trans h.suffix)
        intro hmem
        rw [isBlank_of_mem_openTag b hmem] at hblank
        cases hblank
  · exact h

theorem reaches_seekTurn (h : Bytes.Passed openTag s junk f.buffer) : Reaches s (seekTurn f junk).value := by
  rw [value_seekTurn, reaches_again]
  exact passed_searched h

theorem reaches_openTurn (h : Bytes.Passed openTag s junk f.buffer) : Reaches s (openTurn f junk).value := by
  unfold openTurn
  split
  · next hopen =>
      have hat : Bytes.OccursAt openTag f.buffer 0 := List.isPrefixOf_iff_prefix.mp hopen
      have hopened := hat.append_drop_suffix.trans h.suffix
      rw [Nat.zero_add] at hopened
      have hreached := reached_opened (f := f) hopened
      by_cases hjunk : 0 < junk <;> simpa [hjunk] using hreached
  · split
    · exact h
    · cases hfound : Bytes.indexOf? openTag f.buffer with
      | some start =>
          have hskipped := h.found openTag_ne_nil hfound
          simpa [Checked.value_find openTag_ne_nil, hfound] using hskipped
      | none =>
          have hskipped := h.settled openTag_ne_nil hfound
          simpa [Checked.value_find openTag_ne_nil, hfound, Bytes.settled] using hskipped

theorem reaches_scanTurn {scanned : Nat} (hs : f.state = .inRecord scanned) (h : Reached s f) :
    Reaches s (scanTurn f scanned).value := by
  simp only [Reached, hs] at h
  obtain ⟨hopened, hle, hscanned⟩ := h
  have hbuffer : f.buffer <:+ s := (List.suffix_append ..).trans hopened
  have hfrom := indexOf?_closeTag_from hle hscanned
  have hfind := fun text => @Checked.value_find text closeTag closeTag_ne_nil
  cases hfound : Bytes.indexOf? closeTag (f.buffer.drop (scanned - (closeTag.length - 1))) with
  | some offset =>
      rw [hfound, Option.map_some] at hfrom
      have hclosed := passed_of_closed hfrom hbuffer
      by_cases hlimit : f.limit < scanned - (closeTag.length - 1) + offset <;>
        simpa [scanTurn, hfind, hfound, hlimit] using hclosed
  | none =>
      rw [hfound, Option.map_none] at hfrom
      have hdropped := (passed_of_opened hopened).settled closeTag_ne_nil hfrom
      have hwhole : Reached s { f with state := .inRecord f.buffer.length } :=
        ⟨hopened, Nat.le_refl _, by rwa [List.take_length]⟩
      rw [Nat.zero_add] at hdropped
      by_cases hlimit : f.limit < f.buffer.length - Bytes.overlap closeTag f.buffer
      · simpa [scanTurn, hfind, hfound, hlimit, Bytes.settled] using hdropped
      · simpa [scanTurn, hfind, hfound, hlimit] using hwhole

theorem reaches_discardTurn {skipped : Nat} (h : Bytes.Passed closeTag s skipped f.buffer) :
    Reaches s (discardTurn f skipped).value := by
  have hfind := fun text => @Checked.value_find text closeTag closeTag_ne_nil
  cases hfound : Bytes.indexOf? closeTag f.buffer with
  | some stop =>
      have hclosed := passed_of_closed hfound h.suffix
      simpa [discardTurn, hfind, hfound] using hclosed
  | none =>
      have hdropped := h.settled closeTag_ne_nil hfound
      simpa [discardTurn, hfind, hfound, Bytes.settled] using hdropped

end Tagged

/-! ## Lines -/

namespace Newline

variable {f g : Framer State} {s : Bytes}

@[simp] theorem reaches_answer {frame : Option Frame} : Reaches s (answer g frame) ↔ Reached g := Iff.rfl

@[simp] theorem reached_fresh {limit discarded : Nat} {buffer : Bytes} :
    Reached ⟨limit, .scanning 0, buffer, discarded⟩ := by
  intro checked hchecked
  cases hchecked
  exact ⟨Nat.zero_le _, rfl⟩

@[simp] theorem reached_discarding {limit discarded skipped : Nat} {afterReturn : Bool} {buffer : Bytes} :
    Reached ⟨limit, .discarding skipped afterReturn, buffer, discarded⟩ := by
  intro checked hchecked
  cases hchecked

theorem reaches_scanTurn {checked : Nat} (hs : f.state = .scanning checked) (h : Reached f) :
    Reaches s (scanTurn f checked).value := by
  obtain ⟨hle, hnone⟩ := h checked hs
  have hfrom := findIdx?_from hle hnone
  cases hfound : (f.buffer.drop checked).findIdx? isLineFeed with
  | some offset =>
      generalize hline : trimReturn (f.buffer.take (checked + offset + 1)).dropLast = line
      by_cases hlong : f.limit < line.length
      · simp [scanTurn, hfound, hline, hlong]
      · cases hblank : line.all Bytes.isBlank <;>
          simp [scanTurn, hfound, hline, hlong, hblank, -List.all_eq_true]
  | none =>
      rw [hfound, Option.map_none] at hfrom
      by_cases hlong : f.limit < f.buffer.length - (endsWithReturn f.buffer).toNat
      · simp [scanTurn, hfound, hlong]
      · have hwhole : Reached { f with state := .scanning f.buffer.length } := by
          intro checked hchecked
          cases hchecked
          exact ⟨Nat.le_refl _, by rwa [List.take_length]⟩
        simpa [scanTurn, hfound, hlong] using hwhole

theorem reaches_discardTurn {skipped : Nat} {afterReturn : Bool} (h : Reached f) :
    Reaches s (discardTurn f skipped afterReturn).value := by
  cases hfound : f.buffer.findIdx? isLineFeed with
  | some stop =>
      by_cases hstop : stop = 0 <;> simp [discardTurn, hfound, hstop]
  | none =>
      cases hlast : f.buffer.getLast? with
      | some last => simp [discardTurn, hfound, hlast]
      | none => simpa [discardTurn, hfound, hlast] using h

end Newline

/-! ## Counted records -/

namespace OctetCounting

variable {f g : Framer State} {s : Bytes}

@[simp] theorem reaches_answer {given : Except Desync (Option Frame)} : Reaches s (answer g given) := trivial

@[simp] theorem reaches_goOn : Reaches s (goOn g) := trivial

theorem reaches_headerTurn (f : Framer State) : Reaches s (headerTurn f).value := by
  rw [value_headerTurn]
  simp only
  split
  · exact reaches_answer
  · exact reaches_answer
  · split
    · exact reaches_answer
    · exact reaches_goOn

theorem reaches_turn (f : Framer State) : Reaches s (turn f).value := by
  unfold turn
  split
  · exact reaches_headerTurn f
  · next length _ => by_cases hshort : f.buffer.length < length <;> simp [bodyTurn, hshort]
  · next remaining _ =>
      by_cases hshort : min remaining f.buffer.length < remaining <;> simp [skipTurn, hshort]

end OctetCounting

/-! ## Calls -/

namespace Decoder

variable {s : Bytes} {p : Position} {d : Decoder} {ended : Bool}

theorem reaches_turn (h : p.Reached s) : Reaches s p.turn.value := by
  cases p with
  | opening f junk => exact Tagged.reaches_openTurn h
  | main d =>
      cases d with
      | tagged f =>
          show Reaches s (Tagged.turn f).value
          rw [reached_tagged] at h
          unfold Tagged.turn
          split
          · next hs =>
              simp only [Tagged.Reached, hs] at h
              exact Tagged.reaches_seekTurn h
          · next hs => exact Tagged.reaches_scanTurn hs h
          · next hs =>
              simp only [Tagged.Reached, hs] at h
              exact Tagged.reaches_discardTurn h
      | newline f =>
          show Reaches s (Newline.turn f).value
          rw [reached_newline] at h
          unfold Newline.turn
          split
          · next hs => exact Newline.reaches_scanTurn hs h
          · exact Newline.reaches_discardTurn h
      | octetCounting f => exact OctetCounting.reaches_turn f

/-- What is left of a stream after a call: nothing if the call has been told that the stream has ended, and has found
nothing left of it. -/
def left (ended : Bool) (given : Except Desync (Option Frame)) (s : Bytes) : Bytes :=
  match ended, given with
  | true, .ok none => []
  | _, _ => s

theorem reached_close (h : (Position.main d).Reached s) :
    (Position.main d.close.value.1).Reached (left true d.close.value.2 s) := by
  cases d with
  | tagged f =>
      cases hstate : f.state with
      | seeking junk =>
          simp only [reached_tagged, Tagged.Reached, hstate] at h
          cases junk with
          | zero => simpa [close, Tagged.close, hstate, Framer.drop, left] using Bytes.passed_self _ []
          | succ junk => simpa [close, Tagged.close, hstate, left] using h.reported
      | inRecord scanned => simpa [close, Tagged.close, hstate, Framer.drop, left] using Bytes.passed_self _ []
      | discarding skipped => simpa [close, Tagged.close, hstate, Framer.drop, left] using Bytes.passed_self _ []
  | newline f =>
      cases hstate : f.state <;> simp [close, Newline.close, hstate, Framer.drop]
  | octetCounting f => trivial

theorem reached_conclude {answer : Decoder × Except Desync (Option Frame)} (ended : Bool)
    (h : (Position.main answer.1).Reached s) :
    (Position.main (conclude ended answer).1).Reached (left ended (conclude ended answer).2 s) := by
  obtain ⟨d, given⟩ := answer
  cases ended with
  | false => rwa [conclude_false]
  | true =>
      cases given with
      | error desync => exact h
      | ok frame =>
          cases frame with
          | some frame => exact h
          | none => exact reached_close h

theorem reached_callTurn (ended : Bool) (h : p.Reached s) :
    match (callTurn ended p).value with
    | .again q => q.Reached s
    | .done (d, given) => (Position.main d).Reached (left ended given s) := by
  have hreaches := reaches_turn h
  rw [value_callTurn]
  cases hturn : p.turn.value with
  | again q => rwa [hturn] at hreaches
  | done answer =>
      rw [hturn] at hreaches
      exact reached_conclude ended hreaches

/-- All turns of a call begin at positions that are reached in the stream, and the call leaves the decoder at one that
is reached in what is left of it. -/
theorem reached_of_runs {positions : List Position} {answer : Decoder × Except Desync (Option Frame)}
    (hruns : Runs ended p positions answer) (h : p.Reached s) :
    (∀ q ∈ positions, q.Reached s) ∧ (Position.main answer.1).Reached (left ended answer.2 s) := by
  induction hruns with
  | @done p answer hdone =>
      have hlast := reached_callTurn ended h
      rw [hdone] at hlast
      exact ⟨List.forall_mem_singleton.mpr h, hlast⟩
  | @again p q positions answer hagain hmore ih =>
      have hnext := reached_callTurn ended h
      rw [hagain] at hnext
      obtain ⟨hpositions, hlast⟩ := ih hnext
      exact ⟨List.forall_mem_cons.mpr ⟨h, hpositions⟩, hlast⟩

theorem reached_call (ended : Bool) (h : (Position.main d).Reached s) :
    (Position.main (d.call ended).1).Reached (left ended (d.call ended).2 s) := by
  obtain ⟨positions, hruns, -⟩ := exists_runs_call ended d
  exact (reached_of_runs hruns h).2

theorem reached_feed (h : (Position.main d).Reached s) (bytes : Bytes) :
    (Position.main (d.feed bytes)).Reached (s ++ bytes) := by
  cases d with
  | tagged f =>
      simp only [feed, Framer.feed, reached_tagged, Tagged.Reached] at h ⊢
      cases hstate : f.state with
      | seeking junk =>
          simp only [hstate] at h
          exact h.append bytes
      | inRecord scanned =>
          simp only [hstate] at h
          obtain ⟨⟨before, rfl⟩, hle, hscanned⟩ := h
          refine ⟨⟨before, by simp⟩, by rw [List.length_append]; omega, ?_⟩
          rwa [List.take_append_of_le_length hle]
      | discarding skipped =>
          simp only [hstate] at h
          exact h.append bytes
  | newline f =>
      intro checked hchecked
      obtain ⟨hle, hnone⟩ := h checked hchecked
      refine ⟨by simp only [Framer.feed, List.length_append]; omega, ?_⟩
      simpa only [Framer.feed, List.take_append_of_le_length hle] using hnone
  | octetCounting f => trivial

/-! ## Decoders in use -/

/-- What belongs to the stream after an operation. -/
def continued (d : Decoder) (s : Bytes) : Operation → Bytes
  | .feed bytes => s ++ bytes
  | .next => left false d.next.2 s
  | .finish => left true d.finish.2 s

/-- What belongs to the stream after some operations: all that the decoder has been fed since it last was told that a
stream has ended and found nothing left. -/
def current (d : Decoder) (s : Bytes) : List Operation → Bytes
  | [] => s
  | op :: ops => (d.operate op).1.current (d.continued s op) ops

theorem left_suffix (ended : Bool) (given : Except Desync (Option Frame)) (s : Bytes) : left ended given s <:+ s := by
  unfold left
  split
  · exact List.nil_suffix
  · exact List.suffix_refl s

theorem current_suffix (d : Decoder) (s : Bytes) (ops : List Operation) : d.current s ops <:+ s ++ fed ops := by
  induction ops generalizing d s with
  | nil => simp [current, fed]
  | cons op ops ih =>
      apply (ih (d.operate op).1 (d.continued s op)).trans
      have hop : d.continued s op <:+ s ++ op.bytes := by
        cases op with
        | feed bytes => exact List.suffix_refl _
        | next => simpa [continued, Operation.bytes] using left_suffix false d.next.2 s
        | finish => simpa [continued, Operation.bytes] using left_suffix true d.finish.2 s
      obtain ⟨before, hbefore⟩ := hop
      refine ⟨before, ?_⟩
      simp only [fed, List.flatMap_cons, ← List.append_assoc, hbefore]

theorem reached_operate (h : (Position.main d).Reached s) (op : Operation) :
    (Position.main (d.operate op).1).Reached (d.continued s op) := by
  cases op with
  | feed bytes => exact reached_feed h bytes
  | next => exact reached_call false h
  | finish => exact reached_call true h

theorem reached_use (h : (Position.main d).Reached s) (ops : List Operation) :
    (Position.main (d.use ops).1).Reached (d.current s ops) := by
  induction ops generalizing d s with
  | nil => exact h
  | cons op ops ih => exact ih (reached_operate h op)

theorem reached_start (framing : Framing) (limit : Nat) : (Position.main (start framing limit)).Reached [] := by
  cases framing with
  | tagged => exact Bytes.passed_self _ _
  | newline => exact Newline.reached_fresh
  | octetCounting => trivial

/-- A search that goes on at this position finds what a search of everything would. -/
structure Position.Resumes (s : Bytes) (p : Position) : Prop where
  inRecord : ∀ f scanned, p = .main (.tagged f) → f.state = .inRecord scanned →
    Bytes.indexOf? Tagged.closeTag f.buffer =
      (Bytes.indexOf? Tagged.closeTag (f.buffer.drop (scanned - (Tagged.closeTag.length - 1)))).map
        (scanned - (Tagged.closeTag.length - 1) + ·)
  discarding : ∀ f skipped, p = .main (.tagged f) → f.state = .discarding skipped →
    Bytes.Passed Tagged.closeTag s skipped f.buffer
  seeking : ∀ f junk, p = .main (.tagged f) → f.state = .seeking junk →
    Bytes.Passed Tagged.openTag s junk f.buffer
  opening : ∀ f junk, p = .opening f junk → Bytes.Passed Tagged.openTag s junk f.buffer
  scanning : ∀ f checked, p = .main (.newline f) → f.state = .scanning checked →
    f.buffer.findIdx? Newline.isLineFeed =
      ((f.buffer.drop checked).findIdx? Newline.isLineFeed).map (checked + ·)

theorem Position.Reached.resumes (h : p.Reached s) : p.Resumes s where
  inRecord f scanned hp hs := by
    subst hp
    simp only [reached_tagged, Tagged.Reached, hs] at h
    exact Tagged.indexOf?_closeTag_from h.2.1 h.2.2
  discarding f skipped hp hs := by
    subst hp
    simpa only [reached_tagged, Tagged.Reached, hs] using h
  seeking f junk hp hs := by
    subst hp
    simpa only [reached_tagged, Tagged.Reached, hs] using h
  opening f junk hp := by
    subst hp
    exact h
  scanning f checked hp hs := by
    subst hp
    obtain ⟨hle, hnone⟩ := h checked hs
    exact Newline.findIdx?_from hle hnone

/-- In any use of a decoder, searches go on where they stopped: between the calls, and at each turn of a call. -/
theorem resumes_use (framing : Framing) (limit : Nat) (ops : List Operation) :
    let d := ((start framing limit).use ops).1
    let s := (start framing limit).current [] ops
    s <:+ fed ops ∧ (Position.main d).Resumes s ∧
      ∀ ended, ∃ positions, Runs ended (.main d) positions (d.call ended) ∧ ∀ p ∈ positions, p.Resumes s := by
  intro d s
  have hreached : (Position.main d).Reached s := reached_use (reached_start framing limit) ops
  refine ⟨current_suffix _ [] ops, hreached.resumes, ?_⟩
  intro ended
  obtain ⟨positions, hruns, -⟩ := exists_runs_call ended d
  refine ⟨positions, hruns, ?_⟩
  intro p hp
  exact ((reached_of_runs hruns hreached).1 p hp).resumes

-- A close tag in three parts: the first has been searched in vain when the others come.
example :
    ((start .tagged 9).use [.feed (Tagged.openTag ++ [97, 98, 99, 60, 47]), .next, .feed [114, 101], .feed [99, 62]]).1
      = .tagged ⟨9, .inRecord 5, [97, 98, 99] ++ Tagged.closeTag, 0⟩ := by
  decide

end Decoder

end LogIntake
