import LogIntake.Framing.Tagged
import LogIntake.Proofs.Framing.Parse
import LogIntake.Proofs.Search

/-!
# What a tagged stream means

`parse` reads a whole stream at once. A decoder that has dropped a part of it already is somewhere outside
of a record, after some junk, or inside of one, after a part of the payload; `outside` and `inside` say
what is left from there on. The meaning of a decoder (`future`) is made of these, and each call takes it
along (`handover_next`, `closure_finish`).
-/

namespace LogIntake.Tagged

theorem openTag_ne_nil : openTag ≠ [] := by decide

theorem closeTag_ne_nil : closeTag ≠ [] := by decide

/-! ## The whole stream -/

/-- The unit for a run of so many bytes outside of records. -/
def unframed (n : Nat) : Option Malformed :=
  if n = 0 then none else some (.unframed n)

/-- The run of so many bytes outside of records, known with the open tag behind it. -/
def junkBefore (opened n : Nat) : List Placed :=
  (unframed n).toList.map fun unit => ⟨opened, .malformed unit⟩

def verdict (limit size : Nat) (payload : Bytes) : Frame :=
  if size ≤ limit then .record payload else .malformed (.oversized size limit)

/-- The meaning of a stream that begins outside of a record, `start` bytes after the first. -/
def parse (limit start : Nat) (s : Bytes) : Parse :=
  let text := s.dropWhile Bytes.isBlank
  let start := start + (s.length - text.length)
  match _found : Bytes.indexOf? openTag text with
  | none =>
    let kept := Bytes.overlap openTag text
    .rest (unframed (text.length - kept)) kept
  | some junk =>
    let opened := start + (junk + openTag.length)
    let inside := text.drop (junk + openTag.length)
    match Bytes.indexOf? closeTag inside with
    | none => (Parse.rest none inside.length).prepend (junkBefore opened junk)
    | some size =>
      let closed := opened + (size + closeTag.length)
      (parse limit closed (inside.drop (size + closeTag.length))).prepend
        (junkBefore opened junk ++ [⟨closed, verdict limit size (inside.take size)⟩])
  termination_by s.length
  decreasing_by
    have hpos : 0 < (s.dropWhile Bytes.isBlank).length := Bytes.length_pos_of_indexOf? _found
    have hskip : (s.dropWhile Bytes.isBlank).length ≤ s.length := (List.dropWhile_sublist _).length_le
    simp only [List.length_drop, openTag, closeTag, List.length_cons, List.length_nil]
    omega

/-- What is left inside of a record of which `skipped` bytes have been dropped. -/
def inside (limit start skipped : Nat) (s : Bytes) : Parse :=
  match Bytes.indexOf? closeTag s with
  | none => .rest none (skipped + s.length)
  | some size =>
    let closed := start + (size + closeTag.length)
    (parse limit closed (s.drop (size + closeTag.length))).prepend
      [⟨closed, verdict limit (skipped + size) (s.take size)⟩]

/-- What is left outside of records when `before` bytes of a run of junk have been dropped. -/
def outside (limit start before : Nat) (s : Bytes) : Parse :=
  match Bytes.indexOf? openTag s with
  | none => .rest (unframed (before + Bytes.settled openTag s)) (Bytes.overlap openTag s)
  | some junk =>
    let opened := start + (junk + openTag.length)
    (inside limit opened 0 (s.drop (junk + openTag.length))).prepend (junkBefore opened (before + junk))

theorem parse_eq (limit start : Nat) (s : Bytes) :
    parse limit start s = outside limit (start + (s.length - (s.dropWhile Bytes.isBlank).length)) 0
      (s.dropWhile Bytes.isBlank) := by
  unfold parse outside
  simp only
  split
  · next h => simp [h, Bytes.settled]
  · next junk h =>
      simp only [h, inside, Nat.zero_add]
      split <;> simp [Parse.prepend]

theorem parse_nil (limit start : Nat) : parse limit start [] = .rest none 0 := by
  rw [parse]
  rfl

theorem inside_of_indexOf?_none {s : Bytes} (h : Bytes.indexOf? closeTag s = none) (limit start skipped : Nat) :
    inside limit start skipped s = .rest none (skipped + s.length) := by
  simp [inside, h]

/-! ## Dropping what is settled -/

theorem parse_dropWhile (limit start : Nat) (s more : Bytes) :
    parse limit start (s ++ more)
      = parse limit (start + (s.length - (s.dropWhile Bytes.isBlank).length))
          (s.dropWhile Bytes.isBlank ++ more) := by
  rw [parse_eq, parse_eq, Bytes.dropWhile_dropWhile_append, Bytes.length_sub_dropWhile_append, Nat.add_assoc]

/-- Bytes that can no longer be a part of the close tag are dropped from a record that is too large. -/
theorem inside_settled {limit skipped : Nat} {s : Bytes} (h : Bytes.indexOf? closeTag s = none)
    (hlimit : limit < skipped + Bytes.settled closeTag s) (start : Nat) (more : Bytes) :
    inside limit start skipped (s ++ more)
      = inside limit (start + Bytes.settled closeTag s) (skipped + Bytes.settled closeTag s)
          (s.drop (Bytes.settled closeTag s) ++ more) := by
  have hle := Bytes.settled_le closeTag s
  unfold inside
  rw [Bytes.indexOf?_append_of_none closeTag_ne_nil h]
  generalize Bytes.settled closeTag s = n at hlimit hle
  rw [← List.drop_append_of_le_length hle]
  cases Bytes.indexOf? closeTag ((s ++ more).drop n) with
  | none =>
      simp only [Option.map_none, List.length_drop, List.length_append]
      congr 1
      omega
  | some size =>
      simp only [Option.map_some, List.drop_drop, verdict]
      rw [if_neg (by omega), if_neg (by omega)]
      congr 2 <;> simp only [Nat.add_assoc]

/-- Bytes that can no longer be a part of the open tag are counted as junk. -/
theorem outside_settled {before : Nat} {s : Bytes} (h : Bytes.indexOf? openTag s = none)
    (limit start : Nat) (more : Bytes) :
    outside limit start before (s ++ more)
      = outside limit (start + Bytes.settled openTag s) (before + Bytes.settled openTag s)
          (s.drop (Bytes.settled openTag s) ++ more) := by
  have hle := Bytes.settled_le openTag s
  unfold outside
  rw [Bytes.indexOf?_append_of_none openTag_ne_nil h]
  have hoverlap := Bytes.overlap_append openTag_ne_nil s more
  unfold Bytes.settled at *
  generalize s.length - Bytes.overlap openTag s = n at *
  rw [← List.drop_append_of_le_length hle] at hoverlap ⊢
  cases Bytes.indexOf? openTag ((s ++ more).drop n) with
  | none =>
      have hkept := Bytes.overlap_le_length openTag ((s ++ more).drop n)
      simp only [Option.map_none, hoverlap]
      congr 2
      simp only [List.length_drop, List.length_append] at hkept ⊢
      omega
  | some junk =>
      simp only [Option.map_some, List.drop_drop]
      congr 2 <;> simp only [Nat.add_assoc]

theorem ending_parse (limit start : Nat) (s : Bytes) :
    ∃ last tail, (parse limit start s).ending = .closed last tail := by
  fun_induction parse limit start s with
  | case1 => exact ⟨_, _, rfl⟩
  | case2 => exact ⟨_, _, rfl⟩
  | case3 _ _ _ _ _ _ _ _ _ _ _ ih => exact ih

/-! ## Where frames are complete -/

theorem stop_of_mem_junkBefore {opened n : Nat} {q : Placed} (h : q ∈ junkBefore opened n) : q.stop = opened := by
  obtain ⟨_, _, rfl⟩ := List.mem_map.mp h
  rfl

theorem lt_stop_of_mem_parse {limit start : Nat} {s : Bytes} {q : Placed}
    (h : q ∈ (parse limit start s).placed) : start < q.stop := by
  have hpos : 0 < openTag.length := List.length_pos_iff.mpr openTag_ne_nil
  fun_induction parse limit start s with
  | case1 => cases h
  | case2 start s text begin_ junk _ opened =>
      rcases List.mem_append.mp h with hq | hq
      · rw [stop_of_mem_junkBefore hq]; omega
      · cases hq
  | case3 start s text begin_ junk _ opened _ size _ closed ih =>
      rcases List.mem_append.mp h with hq | hq
      · rcases List.mem_append.mp hq with hq | hq
        · rw [stop_of_mem_junkBefore hq]; omega
        · obtain rfl := List.mem_singleton.mp hq
          show start < closed
          omega
      · have := ih hq
        omega

theorem le_stop_of_mem_inside {limit start skipped : Nat} {s : Bytes} {q : Placed}
    (h : q ∈ (inside limit start skipped s).placed) :
    ∃ size, Bytes.indexOf? closeTag s = some size ∧ start + (size + closeTag.length) ≤ q.stop := by
  unfold inside at h
  split at h
  · cases h
  · next size hfound =>
      refine ⟨size, hfound, ?_⟩
      rcases List.mem_append.mp h with hq | hq
      · obtain rfl := List.mem_singleton.mp hq
        exact Nat.le_refl _
      · exact Nat.le_of_lt (lt_stop_of_mem_parse hq)

theorem le_stop_of_mem_outside {limit start before : Nat} {s : Bytes} {q : Placed}
    (h : q ∈ (outside limit start before s).placed) :
    ∃ junk, Bytes.indexOf? openTag s = some junk ∧ start + (junk + openTag.length) ≤ q.stop := by
  unfold outside at h
  split at h
  · cases h
  · next junk hfound =>
      refine ⟨junk, hfound, ?_⟩
      rcases List.mem_append.mp h with hq | hq
      · exact Nat.le_of_eq (stop_of_mem_junkBefore hq).symm
      · obtain ⟨_, _, hle⟩ := le_stop_of_mem_inside hq
        omega

theorem known_inside {limit : Nat} {s more : Bytes} (start skipped : Nat)
    (ih : ∀ (t : Bytes), t.length < s.length → ∀ start,
      (parse limit start (t ++ more)).known (start + t.length) = (parse limit start t).placed) :
    (inside limit start skipped (s ++ more)).known (start + s.length) = (inside limit start skipped s).placed := by
  cases h : Bytes.indexOf? closeTag s with
  | none =>
      rw [inside_of_indexOf?_none h]
      refine Parse.known_eq_nil fun q hq => ?_
      obtain ⟨size, hsize, hle⟩ := le_stop_of_mem_inside hq
      have := Bytes.length_lt_of_indexOf?_append closeTag_ne_nil h hsize
      omega
  | some size =>
      have hle := Bytes.le_length_of_indexOf? closeTag_ne_nil h
      have hlen : (s.drop (size + closeTag.length)).length = s.length - (size + closeTag.length) :=
        List.length_drop ..
      have hpos : 0 < closeTag.length := List.length_pos_iff.mpr closeTag_ne_nil
      have hrest := ih (s.drop (size + closeTag.length)) (by omega) (start + (size + closeTag.length))
      unfold inside
      simp only [Bytes.indexOf?_append_of_some closeTag_ne_nil h, h]
      rw [List.drop_append_of_le_length hle, List.take_append_of_le_length (by omega), Parse.known_prepend]
      rw [show start + (size + closeTag.length) + (s.drop (size + closeTag.length)).length = start + s.length by omega]
        at hrest
      rw [hrest, List.filter_cons_of_pos (by simp; omega)]
      rfl

theorem known_outside {limit start before : Nat} {s more : Bytes}
    (ih : ∀ (t : Bytes), t.length < s.length → ∀ start,
      (parse limit start (t ++ more)).known (start + t.length) = (parse limit start t).placed) :
    (outside limit start before (s ++ more)).known (start + s.length) = (outside limit start before s).placed := by
  cases h : Bytes.indexOf? openTag s with
  | none =>
      have hnil : (outside limit start before s).placed = [] := by simp [outside, h, Parse.rest]
      rw [hnil]
      refine Parse.known_eq_nil fun q hq => ?_
      obtain ⟨junk, hjunk, hle⟩ := le_stop_of_mem_outside hq
      have := Bytes.length_lt_of_indexOf?_append openTag_ne_nil h hjunk
      omega
  | some junk =>
      have hle := Bytes.le_length_of_indexOf? openTag_ne_nil h
      have hlen : (s.drop (junk + openTag.length)).length = s.length - (junk + openTag.length) :=
        List.length_drop ..
      have hrest := known_inside (start + (junk + openTag.length)) 0
        (s := s.drop (junk + openTag.length)) fun t ht => ih t (by omega)
      have hjunk : (junkBefore (start + (junk + openTag.length)) (before + junk)).filter (·.stop ≤ start + s.length)
          = junkBefore (start + (junk + openTag.length)) (before + junk) := by
        refine List.filter_eq_self.mpr fun q hq => ?_
        rw [stop_of_mem_junkBefore hq, decide_eq_true_eq]
        omega
      unfold outside
      simp only [Bytes.indexOf?_append_of_some openTag_ne_nil h, h]
      rw [show start + (junk + openTag.length) + (s.drop (junk + openTag.length)).length = start + s.length by omega]
        at hrest
      rw [List.drop_append_of_le_length hle, Parse.known_prepend, hrest, hjunk]
      rfl

/-- What is known of a stream when a part of it has come is what that part means. -/
theorem known_parse (limit start : Nat) (s more : Bytes) :
    (parse limit start (s ++ more)).known (start + s.length) = (parse limit start s).placed := by
  refine Parse.known_of_front (parse_dropWhile limit) (parse_nil limit) (fun _ _ _ => lt_stop_of_mem_parse) ?_
    start s more
  intro start s more hne hdropped ih
  have hmore : (s ++ more).dropWhile Bytes.isBlank = s ++ more := by
    have := Bytes.dropWhile_append_of_ne_nil (s := s) (by rwa [hdropped]) more
    rwa [hdropped] at this
  rw [parse_eq, parse_eq, hmore, hdropped, Nat.sub_self, Nat.sub_self]
  exact known_outside ih

/-! ## The meaning of a decoder -/

/-- What has been found out about the buffer, and that a record being dropped is too large. -/
def Sound (f : Framer State) : Prop :=
  match f.state with
  | .seeking _ => True
  | .inRecord scanned =>
    scanned ≤ f.buffer.length ∧ Bytes.indexOf? closeTag (f.buffer.take scanned) = none
  | .discarding skipped => f.limit < skipped

def future (f : Framer State) (more : Bytes) (start : Nat) : Parse :=
  match f.state with
  | .seeking 0 => parse f.limit start (f.buffer ++ more)
  | .seeking (junk + 1) => outside f.limit start (junk + 1) (f.buffer ++ more)
  | .inRecord _ => inside f.limit start 0 (f.buffer ++ more)
  | .discarding skipped => inside f.limit start skipped (f.buffer ++ more)

/-- The junk that has not been reported, and what is left of an unfinished tag or record. -/
def leftover (f : Framer State) : Option Malformed × Nat :=
  match f.state with
  | .seeking junk => (unframed junk, f.buffer.length)
  | .inRecord _ => (none, f.buffer.length)
  | .discarding skipped => (none, skipped + f.buffer.length)

def meaning : Framer.Meaning State :=
  { Sound, future, leftover, fresh := .seeking 0 }

theorem verdict_eq (f : Framer State) (size : Nat) (payload : Bytes) :
    verdict f.limit size payload = if f.limit < size then f.oversized size else .record payload := by
  unfold verdict
  rcases Nat.lt_or_ge f.limit size with h | h
  · rw [if_neg (by omega), if_pos h]; rfl
  · rw [if_pos h, if_neg (by omega)]

theorem inside_of_indexOf? {s : Bytes} {size : Nat} (h : Bytes.indexOf? closeTag s = some size)
    (limit start skipped : Nat) (more : Bytes) :
    (inside limit start skipped (s ++ more)).Yields [verdict limit (skipped + size) (s.take size)]
      fun start => parse limit start (s.drop (size + closeTag.length) ++ more) := by
  have hle := Bytes.le_length_of_indexOf? closeTag_ne_nil h
  unfold inside
  simp only [Bytes.indexOf?_append_of_some closeTag_ne_nil h]
  rw [List.drop_append_of_le_length hle, List.take_append_of_le_length (by omega)]
  exact ⟨_, Parse.frames_prepend .., rfl⟩

theorem handover_discard {f : Framer State} {skipped : Nat} (hlimit : f.limit < skipped) :
    meaning.Handover (fun more start => inside f.limit start skipped (f.buffer ++ more)) f
      (discard f skipped).1 (.ok (discard f skipped).2) := by
  unfold discard
  split
  · next stop h =>
      refine .of_frame rfl rfl trivial fun more start => ?_
      have := inside_of_indexOf? h f.limit start skipped more
      rw [verdict, if_neg (by omega)] at this
      exact this
  · next h =>
      have hkept := Bytes.indexOf?_drop_of_none closeTag_ne_nil h (Bytes.settled closeTag f.buffer)
      refine .of_quiet rfl rfl ?_ (fun more start => ?_) fun start => ?_
      · show f.limit < skipped + _
        omega
      · rw [inside_settled h (by omega)]
        exact ⟨_, rfl, rfl⟩
      · show inside f.limit start _ (f.buffer.drop (Bytes.settled closeTag f.buffer) ++ []) = _
        rw [List.append_nil, inside_of_indexOf?_none hkept]
        rfl

/-- A tag that has not been found in the first `scanned` bytes may have begun a little before their end. -/
theorem indexOf?_closeTag_from {s : Bytes} {scanned : Nat} (hle : scanned ≤ s.length)
    (h : Bytes.indexOf? closeTag (s.take scanned) = none) :
    Bytes.indexOf? closeTag s = (Bytes.indexOf? closeTag (s.drop (scanned - (closeTag.length - 1)))).map
      (scanned - (closeTag.length - 1) + ·) := by
  refine Bytes.indexOf?_eq_map_drop closeTag_ne_nil fun j hj ho => ?_
  have hlen : (s.take scanned).length = scanned := List.length_take_of_le hle
  rw [← List.take_append_drop scanned s, Bytes.occursAt_append_iff (by omega)] at ho
  exact (Bytes.indexOf?_eq_none_iff closeTag_ne_nil).mp h j ho

theorem handover_scan {f : Framer State} {scanned : Nat} (hle : scanned ≤ f.buffer.length)
    (h : Bytes.indexOf? closeTag (f.buffer.take scanned) = none) :
    meaning.Handover (fun more start => inside f.limit start 0 (f.buffer ++ more)) f
      (scan f scanned).1 (.ok (scan f scanned).2) := by
  have hfrom := indexOf?_closeTag_from hle h
  unfold scan
  simp only
  split
  · next offset hoffset =>
      rw [hoffset, Option.map_some] at hfrom
      refine .of_frame rfl rfl trivial fun more start => ?_
      have := inside_of_indexOf? hfrom f.limit start 0 more
      rw [Nat.zero_add, verdict_eq] at this
      exact this
  · next hoffset =>
      rw [hoffset, Option.map_none] at hfrom
      split
      · next hlimit =>
          -- What has come is too large already, and all but the overlap is dropped.
          refine (handover_discard (f := { f with buffer := f.buffer.drop (Bytes.settled closeTag f.buffer) })
            hlimit).of_yields rfl rfl fun more start => ?_
          rw [inside_settled hfrom (by unfold Bytes.settled; omega), Nat.zero_add]
          exact ⟨_, rfl, rfl⟩
      · refine .of_quiet rfl rfl ⟨Nat.le_refl _, ?_⟩ (fun more start => ⟨_, rfl, rfl⟩) fun start => ?_
        · rwa [List.take_length]
        · show inside f.limit start 0 (f.buffer ++ []) = .rest none f.buffer.length
          rw [List.append_nil, inside_of_indexOf?_none hfrom, Nat.zero_add]

theorem outside_of_indexOf? {s : Bytes} {junk : Nat} (h : Bytes.indexOf? openTag s = some junk)
    (limit start before : Nat) (more : Bytes) :
    (outside limit start before (s ++ more)).Yields ((unframed (before + junk)).toList.map .malformed)
      fun start => inside limit start 0 (s.drop (junk + openTag.length) ++ more) := by
  have hle := Bytes.le_length_of_indexOf? openTag_ne_nil h
  unfold outside
  simp only [Bytes.indexOf?_append_of_some openTag_ne_nil h]
  rw [List.drop_append_of_le_length hle]
  refine ⟨_, (Parse.frames_prepend ..).trans ?_, rfl⟩
  rw [junkBefore, List.map_map]
  rfl

/-- What a decoder has to search for an open tag. -/
def searched (f : Framer State) (junk : Nat) : Bytes :=
  if junk = 0 then f.buffer.dropWhile Bytes.isBlank else f.buffer

theorem seek_eq (f : Framer State) (junk : Nat) :
    seek f junk = match Bytes.indexOf? openTag (searched f junk) with
      | some start =>
        let opened := { f with buffer := (searched f junk).drop (start + openTag.length), state := .inRecord 0 }
        if junk + start = 0 then scan opened 0 else (opened, some (.malformed (.unframed (junk + start))))
      | none =>
        let settled := Bytes.settled openTag (searched f junk)
        ({ f with buffer := (searched f junk).drop settled, state := .seeking (junk + settled) }, none) := rfl

/-- Once there is something to search, the bytes mean a stream outside of records without blanks in front. -/
theorem future_seeking {f : Framer State} {junk : Nat} (h : 0 < junk + (searched f junk).length) (more : Bytes)
    (start : Nat) :
    (future { f with state := .seeking junk } more start).Yields []
      fun start => outside f.limit start junk (searched f junk ++ more) := by
  cases junk with
  | zero =>
      rw [Nat.zero_add] at h
      have hskip := Bytes.dropWhile_append_of_ne_nil (List.length_pos_iff.mp h) more
      refine ⟨start + (f.buffer.length - (f.buffer.dropWhile Bytes.isBlank).length), ?_⟩
      simp only [future, searched, if_true]
      rw [parse_dropWhile, parse_eq, hskip, Nat.sub_self, Nat.add_zero]
      exact ⟨rfl, rfl⟩
  | succ junk => exact ⟨start, rfl, rfl⟩

/-- The beginning of an open tag after a run of junk ends a stream without a frame. -/
theorem outside_fragment {k : Nat} (hk : k < openTag.length) (limit start before : Nat) :
    outside limit start before (openTag.take k) = .rest (unframed before) k := by
  have hlen : (openTag.take k).length = k := List.length_take_of_le (Nat.le_of_lt hk)
  have hnone : Bytes.indexOf? openTag (openTag.take k) = none := by
    rw [Bytes.indexOf?_eq_none_iff openTag_ne_nil]
    intro i ho
    have := ho.length_le openTag_ne_nil
    omega
  have hoverlap := Bytes.overlap_eq_length (by omega) (List.take_prefix k openTag)
  simp only [outside, hnone, Bytes.settled, hoverlap, hlen, Nat.sub_self, Nat.add_zero]

theorem future_fragment {f : Framer State} {junk k : Nat} (hstate : f.state = .seeking junk)
    (hbuffer : f.buffer = openTag.take k) (hk : k < openTag.length) (start : Nat) :
    future f [] start = .rest (unframed junk) k := by
  cases junk with
  | zero =>
      have hblank : (openTag.take k).dropWhile Bytes.isBlank = openTag.take k := by
        cases k <;> rfl
      simp only [future, hstate, hbuffer, List.append_nil]
      rw [parse_eq, hblank, outside_fragment hk]
  | succ junk =>
      simp only [future, hstate, hbuffer, List.append_nil]
      exact outside_fragment hk ..

theorem handover_seek (f : Framer State) (junk : Nat) :
    meaning.Handover (future { f with state := .seeking junk }) f (seek f junk).1 (.ok (seek f junk).2) := by
  rw [seek_eq]
  split
  · next start h =>
      have hpos := Bytes.length_pos_of_indexOf? h
      have hopen : ∀ more at_, (future { f with state := .seeking junk } more at_).Yields
          ((unframed (junk + start)).toList.map .malformed)
          fun at_ => inside f.limit at_ 0 ((searched f junk).drop (start + openTag.length) ++ more) :=
        fun more at_ => (future_seeking (by omega) more at_).trans fun at_ => outside_of_indexOf? h f.limit at_ junk more
      simp only
      split
      · next hzero =>
          -- A record begins at once, and its close tag may have come as well.
          simp only [hzero, unframed, if_true] at hopen
          exact (handover_scan (Nat.zero_le _) rfl).of_yields rfl rfl hopen
      · next hsome =>
          simp only [unframed, if_neg hsome] at hopen
          exact .of_frame rfl rfl ⟨Nat.zero_le _, rfl⟩ hopen
  · next h =>
      have hkept := Bytes.drop_settled openTag_ne_nil (searched f junk)
      have hlt := Bytes.overlap_lt openTag_ne_nil (searched f junk)
      refine .of_quiet rfl rfl trivial (fun more at_ => ?_) fun at_ => ?_
      · simp only
        cases hcount : junk + Bytes.settled openTag (searched f junk) with
        | zero =>
            -- There is neither junk nor anything to drop: the blanks in front are all that has gone.
            obtain ⟨rfl, hzero⟩ : junk = 0 ∧ Bytes.settled openTag (searched f junk) = 0 := by omega
            simp only [searched, if_true] at hzero ⊢
            rw [hzero, List.drop_zero]
            show (parse f.limit at_ (f.buffer ++ more)).Yields [] fun at_ => parse f.limit at_ _
            rw [parse_dropWhile]
            exact ⟨_, rfl, rfl⟩
        | succ count =>
            have hsettled := Bytes.settled_le openTag (searched f junk)
            refine (future_seeking (by omega) more at_).trans fun at_ => ?_
            rw [outside_settled h, hcount]
            exact ⟨_, rfl, rfl⟩
      · refine (future_fragment rfl hkept hlt at_).trans ?_
        show _ = Parse.rest _ ((searched f junk).drop (Bytes.settled openTag (searched f junk))).length
        rw [hkept, List.length_take_of_le (Nat.le_of_lt hlt)]
        rfl

theorem handover_next {f : Framer State} (h : Sound f) :
    meaning.Handover (future f) f (next f).1 (.ok (next f).2) := by
  have hfuture : future f = fun more start => future f more start := rfl
  cases hs : f.state with
  | seeking junk =>
      have hseek := handover_seek f junk
      rw [← hs] at hseek
      simp only [next, hs]
      exact hseek
  | inRecord scanned =>
      simp only [Sound, hs] at h
      simp only [future, hs] at hfuture
      simp only [next, hs, hfuture]
      exact handover_scan h.1 h.2
  | discarding skipped =>
      simp only [Sound, hs] at h
      simp only [future, hs] at hfuture
      simp only [next, hs, hfuture]
      exact handover_discard h

/-! ## The end of the stream -/

/-- If the end of the stream reports junk, what is left behind it is the beginning of an open tag. -/
theorem eq_fragment_of_outside {limit start junk : Nat} {s : Bytes}
    (h : outside limit start (junk + 1) s = .rest (unframed (junk + 1)) s.length) :
    ∃ k, k < openTag.length ∧ s = openTag.take k := by
  unfold outside at h
  split at h
  · simp only [Parse.rest, Parse.mk.injEq, Ending.closed.injEq, true_and] at h
    have hkept := Bytes.drop_settled openTag_ne_nil s
    rw [Bytes.settled, h.2, Nat.sub_self, List.drop_zero] at hkept
    exact ⟨_, Nat.lt_of_le_of_lt (Nat.le_of_eq h.2.symm) (Bytes.overlap_lt openTag_ne_nil s), hkept⟩
  · simp [Parse.rest, Parse.prepend, junkBefore, unframed] at h

/-- At the end of the stream the junk is handed out first, and then what is left is discarded. -/
theorem closure_finish {f : Framer State} (h : Sound f) : meaning.Closure f (finish f).1 (.ok (finish f).2) := by
  have hnext := handover_next h
  unfold finish
  split
  · next g frame hg =>
      rw [hg] at hnext
      exact hnext.closure (by simp)
  · next g hg =>
      rw [hg] at hnext
      split
      · next hs =>
          have hleft : leftover g = (none, 0 + g.buffer.length) := by simp only [leftover, hs, Nat.zero_add]; rfl
          exact hnext.closure_discard rfl rfl rfl trivial hleft rfl
      · next junk hs =>
          have hquiet := hnext.quiet rfl
          simp only [meaning, future, leftover, hs, List.append_nil] at hquiet
          obtain ⟨k, hk, hbuffer⟩ := eq_fragment_of_outside (hquiet 0)
          have hlast := future_fragment (f := { g with state := .seeking 0 }) rfl hbuffer hk
          have hlen : g.buffer.length = k := by rw [hbuffer, List.length_take_of_le (Nat.le_of_lt hk)]
          refine ⟨hnext.limit, trivial, fun _ hfr => ⟨hnext.discarded, fun start => ?_⟩, fun hq => ?_, fun _ hl => ?_⟩
          · cases hfr
            obtain ⟨now, hwhole, hending⟩ := (hnext.yields [] start).whole_eq
            rw [hnext.quiet rfl now] at hwhole hending
            simp only [meaning, leftover, hs] at hwhole hending
            refine ⟨now, ?_, ?_⟩
            · exact hwhole.trans (congrArg (Frame.malformed (.unframed (junk + 1)) :: Parse.whole ·) (hlast now)).symm
            · rw [hlen] at hending
              exact (congrArg Ending.tail? hending).trans (congrArg (·.ending.tail?) (hlast now)).symm
          · cases hq
          · cases hl
      · next scanned hs =>
          have hleft : leftover g = (none, 0 + g.buffer.length) := by simp only [leftover, hs, Nat.zero_add]
          exact hnext.closure_discard rfl rfl rfl trivial hleft rfl
      · next skipped hs =>
          have hleft : leftover g = (none, skipped + g.buffer.length) := by simp only [leftover, hs]
          exact hnext.closure_discard rfl rfl rfl trivial hleft rfl

end LogIntake.Tagged
