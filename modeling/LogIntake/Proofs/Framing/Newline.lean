import LogIntake.Framing.Newline
import LogIntake.Proofs.Framing.Parse

/-!
# What lines mean

`parse` reads a whole stream at once, line by line. A decoder that drops a line which is too long knows how
many bytes of it have gone and whether the last of them was a carriage return; `dropping` says what is left
from there on, and agrees with `parse` wherever the line was cut.
-/

namespace LogIntake.Newline

/-! ## The whole stream -/

/-- The frame of a line without its line feed, if it has one. -/
def lineFrame (limit : Nat) (line : Bytes) : Option Frame :=
  let text := trimReturn line
  if limit < text.length then some (.malformed (.oversized text.length limit))
  else if text.all Bytes.isBlank then none
  else some (.record text)

/-- The meaning of a stream that begins with a line, `start` bytes after the first. -/
def parse (limit start : Nat) (s : Bytes) : Parse :=
  match _found : s.findIdx? isLineFeed with
  | none => .rest none s.length
  | some stop =>
    let next := start + (stop + 1)
    (parse limit next (s.drop (stop + 1))).prepend ((lineFrame limit (s.take stop)).toList.map (⟨next, ·⟩))
  termination_by s.length
  decreasing_by
    have : 0 < s.length - 0 := length_pos_of_findIdx? _found
    simp only [List.length_drop]
    omega

/-- Whether a line ends with a carriage return of which this part is the last that is known. -/
def carry (after : Bool) (part : Bytes) : Bool :=
  if part = [] then after else endsWithReturn part

/-- What is left of a stream inside of a line that is too long, of which `skipped` bytes have been dropped. -/
def dropping (limit start skipped : Nat) (after : Bool) (s : Bytes) : Parse :=
  match s.findIdx? isLineFeed with
  | none => .rest none (skipped + s.length)
  | some stop =>
    let next := start + (stop + 1)
    (parse limit next (s.drop (stop + 1))).prepend
      [⟨next, .malformed (.oversized (skipped + stop - (carry after (s.take stop)).toNat) limit)⟩]

/-! ## Line ends -/

theorem length_trimReturn (line : Bytes) : (trimReturn line).length = line.length - (endsWithReturn line).toNat := by
  unfold trimReturn
  cases endsWithReturn line with
  | true => simp
  | false => simp

theorem endsWithReturn_append (part more : Bytes) :
    endsWithReturn (part ++ more) = carry (endsWithReturn part) more := by
  unfold carry endsWithReturn
  cases more with
  | nil => simp
  | cons b rest => simp [List.getLast?_cons]

theorem carry_append (after : Bool) (part more : Bytes) :
    carry after (part ++ more) = carry (carry after part) more := by
  cases part with
  | nil => rfl
  | cons b rest =>
      have hpart : carry after (b :: rest) = endsWithReturn (b :: rest) := if_neg (List.cons_ne_nil b rest)
      rw [hpart, ← endsWithReturn_append]
      exact if_neg (List.cons_ne_nil b (rest ++ more))

theorem carry_take {s : Bytes} {stop : Nat} (hlt : stop < s.length) (after : Bool) :
    carry after (s.take stop) = if stop = 0 then after else endsWithReturn (s.take stop) := by
  cases stop with
  | zero => rfl
  | succ stop =>
      have hne : s.take (stop + 1) ≠ [] := by
        rw [← List.length_pos_iff, List.length_take_of_le (Nat.le_of_lt hlt)]
        exact Nat.succ_pos _
      rw [carry, if_neg hne, if_neg (Nat.succ_ne_zero _)]

theorem lt_length_of_findIdx? {s : Bytes} {stop : Nat} (h : s.findIdx? isLineFeed = some stop) : stop < s.length :=
  (List.findIdx?_eq_some_iff_getElem.mp h).1

/-- A line feed after a part without one ends the line that the part began. -/
theorem findIdx?_append_of_none {s : Bytes} (h : s.findIdx? isLineFeed = none) (more : Bytes) :
    (s ++ more).findIdx? isLineFeed = (more.findIdx? isLineFeed).map (s.length + ·) := by
  rw [List.findIdx?_append, h, Option.none_or]
  congr 1
  funext i
  exact Nat.add_comm ..

theorem findIdx?_append_of_some {s : Bytes} {stop : Nat} (h : s.findIdx? isLineFeed = some stop) (more : Bytes) :
    (s ++ more).findIdx? isLineFeed = some stop := by
  rw [List.findIdx?_append, h, Option.some_or]

theorem parse_of_findIdx?_none {s : Bytes} (h : s.findIdx? isLineFeed = none) (limit start : Nat) :
    parse limit start s = .rest none s.length := by
  rw [parse]
  split
  · rfl
  · next stop hstop => rw [h] at hstop; cases hstop

theorem parse_append_of_findIdx? {s : Bytes} {stop : Nat} (h : s.findIdx? isLineFeed = some stop)
    (limit start : Nat) (more : Bytes) :
    parse limit start (s ++ more) = (parse limit (start + (stop + 1)) (s.drop (stop + 1) ++ more)).prepend
      ((lineFrame limit (s.take stop)).toList.map (⟨start + (stop + 1), ·⟩)) := by
  have hlt := lt_length_of_findIdx? h
  have hmore := findIdx?_append_of_some h more
  rw [parse]
  split
  · next hnone => rw [hmore] at hnone; cases hnone
  · next stop' hstop =>
      obtain rfl : stop = stop' := by rw [hmore] at hstop; exact Option.some.inj hstop
      rw [List.drop_append_of_le_length (by omega), List.take_append_of_le_length (by omega)]

theorem ending_parse (limit start : Nat) (s : Bytes) : ∃ tail, (parse limit start s).ending = .closed none tail := by
  fun_induction parse limit start s with
  | case1 => exact ⟨_, rfl⟩
  | case2 _ _ _ _ _ ih => exact ih

/-! ## Dropping a line that is too long -/

theorem dropping_append {s : Bytes} (h : s.findIdx? isLineFeed = none) (limit start skipped : Nat) (after : Bool)
    (more : Bytes) :
    dropping limit start skipped after (s ++ more)
      = dropping limit (start + s.length) (skipped + s.length) (carry after s) more := by
  unfold dropping
  rw [findIdx?_append_of_none h]
  cases more.findIdx? isLineFeed with
  | none => simp only [Option.map_none, List.length_append, Nat.add_assoc]
  | some stop =>
      simp only [Option.map_some]
      rw [Nat.add_assoc s.length stop 1, List.drop_length_add_append, List.take_length_add_append, carry_append]
      congr 2 <;> simp only [Nat.add_assoc]

/-- A line that is too long already may be dropped. -/
theorem parse_append_of_long {limit : Nat} {s : Bytes} (h : s.findIdx? isLineFeed = none)
    (hlong : limit < s.length - (endsWithReturn s).toNat) (start : Nat) (more : Bytes) :
    parse limit start (s ++ more) = dropping limit (start + s.length) s.length (endsWithReturn s) more := by
  unfold parse dropping
  rw [findIdx?_append_of_none h]
  cases hmore : more.findIdx? isLineFeed with
  | none => simp only [Option.map_none, List.length_append]
  | some stop =>
      have hsize : limit < s.length + stop - (carry (endsWithReturn s) (more.take stop)).toNat := by
        cases stop with
        | zero => exact hlong
        | succ stop =>
            have := Bool.toNat_le (carry (endsWithReturn s) (more.take (stop + 1)))
            omega
      have hstop : (more.take stop).length = stop := List.length_take_of_le (Nat.le_of_lt (lt_length_of_findIdx? hmore))
      simp only [Option.map_some]
      rw [Nat.add_assoc s.length stop 1, List.drop_length_add_append, List.take_length_add_append, lineFrame,
        length_trimReturn, endsWithReturn_append, List.length_append, hstop, if_pos hsize, Nat.add_assoc]
      rfl

/-! ## Where frames are complete -/

theorem stop_of_mem_lineFrame {frame : Option Frame} {next : Nat} {q : Placed}
    (h : q ∈ frame.toList.map (⟨next, ·⟩)) : q.stop = next := by
  obtain ⟨_, _, rfl⟩ := List.mem_map.mp h
  rfl

theorem lt_stop_of_mem_parse {limit start : Nat} {s : Bytes} {q : Placed} (h : q ∈ (parse limit start s).placed) :
    ∃ stop, s.findIdx? isLineFeed = some stop ∧ start + stop < q.stop := by
  fun_induction parse limit start s with
  | case1 => cases h
  | case2 start s stop hfound next ih =>
      refine ⟨stop, hfound, ?_⟩
      rcases List.mem_append.mp h with hq | hq
      · rw [stop_of_mem_lineFrame hq]; omega
      · obtain ⟨_, _, hlt⟩ := ih hq
        omega

theorem known_parse (limit start : Nat) (s more : Bytes) :
    (parse limit start (s ++ more)).known (start + s.length) = (parse limit start s).placed := by
  fun_induction parse limit start s with
  | case1 start s hnone =>
      refine Parse.known_eq_nil fun q hq => ?_
      obtain ⟨stop, hstop, hlt⟩ := lt_stop_of_mem_parse hq
      rw [findIdx?_append_of_none hnone] at hstop
      obtain ⟨i, _, rfl⟩ := Option.map_eq_some_iff.mp hstop
      omega
  | case2 start s stop hfound next ih =>
      have hlt := lt_length_of_findIdx? hfound
      have hlen : (s.drop (stop + 1)).length = s.length - (stop + 1) := List.length_drop ..
      have hlast : next + (s.drop (stop + 1)).length = start + s.length := by omega
      rw [hlast] at ih
      rw [parse_append_of_findIdx? hfound, Parse.known_prepend, ih, List.filter_eq_self.mpr]
      · rfl
      · intro q hq
        rw [stop_of_mem_lineFrame hq, decide_eq_true_eq]
        omega

/-! ## The meaning of a decoder -/

/-- What has been found out about the buffer, and that a line being dropped is too large. -/
def Sound (f : Framer State) : Prop :=
  match f.state with
  | .scanning checked => checked ≤ f.buffer.length ∧ (f.buffer.take checked).findIdx? isLineFeed = none
  | .discarding skipped after => f.limit < skipped - after.toNat

def future (f : Framer State) (more : Bytes) (start : Nat) : Parse :=
  match f.state with
  | .scanning _ => parse f.limit start (f.buffer ++ more)
  | .discarding skipped after => dropping f.limit start skipped after (f.buffer ++ more)

/-- What has come of a line that has not ended, with what has been dropped of it. -/
def leftover (f : Framer State) : Option Malformed × Nat :=
  match f.state with
  | .scanning _ => (none, f.buffer.length)
  | .discarding skipped _ => (none, skipped + f.buffer.length)

def meaning : Framer.Meaning State :=
  { Sound, future, leftover, fresh := .scanning 0 }

theorem yields_of_findIdx? {s : Bytes} {stop : Nat} (h : s.findIdx? isLineFeed = some stop) (limit start : Nat)
    (more : Bytes) :
    (parse limit start (s ++ more)).Yields (lineFrame limit (s.take stop)).toList
      fun start => parse limit start (s.drop (stop + 1) ++ more) := by
  rw [parse_append_of_findIdx? h]
  refine ⟨_, (Parse.frames_prepend ..).trans ?_, rfl⟩
  rw [List.map_map]
  exact congrArg (· ++ _) (List.map_id _)

theorem handover_discard {f : Framer State} {skipped : Nat} {after : Bool} (hlimit : f.limit < skipped - after.toNat) :
    meaning.Handover (fun more start => dropping f.limit start skipped after (f.buffer ++ more)) f
      (discard f skipped after).1 (.ok (discard f skipped after).2) := by
  unfold discard
  split
  · next stop h =>
      have hlt := lt_length_of_findIdx? h
      refine .of_frame rfl rfl ⟨Nat.zero_le _, rfl⟩ fun more start => ?_
      unfold dropping
      simp only [findIdx?_append_of_some h]
      rw [List.drop_append_of_le_length (by omega), List.take_append_of_le_length (by omega), carry_take hlt]
      exact ⟨_, Parse.frames_prepend .., rfl⟩
  · next h =>
      refine .of_quiet rfl rfl ?_ (fun more start => ?_) fun start => rfl
      · show f.limit < skipped + f.buffer.length - (carry after f.buffer).toNat
        cases hbuffer : f.buffer with
        | nil => exact hlimit
        | cons b rest =>
            have := Bool.toNat_le (carry after (b :: rest))
            rw [List.length_cons]
            omega
      · rw [dropping_append h]
        exact ⟨_, rfl, rfl⟩

theorem findIdx?_from {s : Bytes} {checked : Nat} (hle : checked ≤ s.length)
    (h : (s.take checked).findIdx? isLineFeed = none) :
    s.findIdx? isLineFeed = ((s.drop checked).findIdx? isLineFeed).map (checked + ·) := by
  have hsplit := findIdx?_append_of_none h (s.drop checked)
  rwa [List.take_append_drop, List.length_take_of_le hle] at hsplit

theorem handover_scan {f : Framer State} {checked : Nat} (hle : checked ≤ f.buffer.length)
    (h : (f.buffer.take checked).findIdx? isLineFeed = none) :
    meaning.Handover (fun more start => parse f.limit start (f.buffer ++ more)) f
      (scan f checked).1 (.ok (scan f checked).2) := by
  fun_induction scan f checked with
  | case1 f checked offset hfound stop line rest hlong =>
      have hstop := findIdx?_from hle h
      have hline : lineFrame f.limit (f.buffer.take stop) = some (f.oversized line.length) := if_pos hlong
      rw [hfound, Option.map_some] at hstop
      refine .of_frame rfl rfl ⟨Nat.zero_le _, rfl⟩ fun more start => ?_
      have := yields_of_findIdx? hstop f.limit start more
      rw [hline] at this
      exact this
  | case2 f checked offset hfound stop line rest hlong hblank ih =>
      -- A blank line gives nothing, and the next one is read at once.
      have hstop := findIdx?_from hle h
      have hline : lineFrame f.limit (f.buffer.take stop) = none := (if_neg hlong).trans (if_pos hblank)
      rw [hfound, Option.map_some] at hstop
      refine (ih (Nat.zero_le _) rfl).of_yields rfl rfl fun more start => ?_
      have := yields_of_findIdx? hstop f.limit start more
      rw [hline] at this
      exact this
  | case3 f checked offset hfound stop line rest hlong hblank =>
      have hstop := findIdx?_from hle h
      have hline : lineFrame f.limit (f.buffer.take stop) = some (.record line) := (if_neg hlong).trans (if_neg hblank)
      rw [hfound, Option.map_some] at hstop
      refine .of_frame rfl rfl ⟨Nat.zero_le _, rfl⟩ fun more start => ?_
      have := yields_of_findIdx? hstop f.limit start more
      rw [hline] at this
      exact this
  | case4 f checked hfound ret hlong =>
      have hnone := findIdx?_from hle h
      rw [hfound, Option.map_none] at hnone
      refine .of_quiet rfl rfl hlong (fun more start => ?_) fun start => rfl
      rw [parse_append_of_long hnone hlong]
      exact ⟨_, rfl, rfl⟩
  | case5 f checked hfound ret hlong =>
      have hnone := findIdx?_from hle h
      rw [hfound, Option.map_none] at hnone
      refine .of_quiet rfl rfl ⟨Nat.le_refl _, ?_⟩ (fun more start => ⟨_, rfl, rfl⟩) fun start => ?_
      · rwa [List.take_length]
      · exact parse_of_findIdx?_none (by rwa [List.append_nil]) .. |>.trans (by rw [List.append_nil]; rfl)

theorem handover_next {f : Framer State} (h : Sound f) :
    meaning.Handover (future f) f (next f).1 (.ok (next f).2) := by
  have hfuture : future f = fun more start => future f more start := rfl
  cases hs : f.state with
  | scanning checked =>
      simp only [Sound, hs] at h
      simp only [future, hs] at hfuture
      simp only [next, hs, hfuture]
      exact handover_scan h.1 h.2
  | discarding skipped after =>
      simp only [Sound, hs] at h
      simp only [future, hs] at hfuture
      simp only [next, hs, hfuture]
      exact handover_discard h

theorem closure_finish {f : Framer State} (h : Sound f) : meaning.Closure f (finish f).1 (.ok (finish f).2) := by
  have hnext := handover_next h
  unfold finish
  split
  · next g frame hg =>
      rw [hg] at hnext
      exact hnext.closure (by simp)
  · next g hg =>
      rw [hg] at hnext
      split
      · next checked hs =>
          have hleft : leftover g = (none, 0 + g.buffer.length) := by simp only [leftover, hs, Nat.zero_add]
          exact hnext.closure_discard rfl rfl rfl ⟨Nat.zero_le _, rfl⟩ hleft rfl
      · next skipped after hs =>
          have hleft : leftover g = (none, skipped + g.buffer.length) := by simp only [leftover, hs]
          exact hnext.closure_discard rfl rfl rfl ⟨Nat.zero_le _, rfl⟩ hleft rfl

end LogIntake.Newline
