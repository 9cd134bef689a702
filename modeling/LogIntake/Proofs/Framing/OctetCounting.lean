import LogIntake.Framing.OctetCounting
import LogIntake.Proofs.Framing.Parse
import LogIntake.Proofs.Search

/-!
# What counted records mean

`parse` reads a whole stream at once. Whether a length can be read is said of all bytes up to the first
space (`BadLength`); a decoder sees a window of them only, and comes to the same verdict (`readHeader_spec`),
which more bytes do not change (`BadLength.append`).
-/

namespace LogIntake.OctetCounting

/-! ## Lengths -/

def beforeSpace (s : Bytes) : Bytes :=
  s.takeWhile (!isSpace ·)

/-- No length can be read at the front, whatever follows: before any space there is a byte that is no digit,
or the digits begin with zero and come to a space, or there are more of them than a length has. -/
def BadLength (s : Bytes) : Prop :=
  (∃ b ∈ beforeSpace s, Bytes.isDigit b = false) ∨ (s.head? = some 48 ∧ (beforeSpace s).length < s.length) ∨
    maxDigits < (beforeSpace s).length

instance (s : Bytes) : Decidable (BadLength s) :=
  inferInstanceAs (Decidable ((∃ b ∈ beforeSpace s, Bytes.isDigit b = false) ∨ _ ∨ _))

theorem length_beforeSpace_le (s : Bytes) : (beforeSpace s).length ≤ s.length :=
  (List.takeWhile_prefix _).length_le

theorem beforeSpace_append_of_lt {s : Bytes} (h : (beforeSpace s).length < s.length) (more : Bytes) :
    beforeSpace (s ++ more) = beforeSpace s := by
  rw [beforeSpace, List.takeWhile_append, if_neg]
  · rfl
  · exact Nat.ne_of_lt h

theorem beforeSpace_append_of_eq {s : Bytes} (h : (beforeSpace s).length = s.length) (more : Bytes) :
    beforeSpace (s ++ more) = s ++ beforeSpace more := by
  unfold beforeSpace at h ⊢
  rw [List.takeWhile_append, if_pos h]

theorem beforeSpace_eq_self {s : Bytes} (h : (beforeSpace s).length = s.length) : beforeSpace s = s :=
  (List.takeWhile_prefix _).eq_of_length h

theorem beforeSpace_prefix_append (s more : Bytes) : beforeSpace s <+: beforeSpace (s ++ more) := by
  rcases Nat.lt_or_eq_of_le (length_beforeSpace_le s) with h | h
  · exact (beforeSpace_append_of_lt h more).symm ▸ List.prefix_refl _
  · rw [beforeSpace_append_of_eq h, beforeSpace_eq_self h]
    exact List.prefix_append ..

theorem BadLength.append {s : Bytes} (h : BadLength s) (more : Bytes) : BadLength (s ++ more) := by
  have hfront := beforeSpace_prefix_append s more
  rcases h with ⟨b, hb, hdigit⟩ | ⟨hzero, hlt⟩ | hlong
  · exact Or.inl ⟨b, hfront.subset hb, hdigit⟩
  · refine Or.inr (Or.inl ⟨by simp [hzero], ?_⟩)
    rw [beforeSpace_append_of_lt hlt, List.length_append]
    omega
  · exact Or.inr (Or.inr (Nat.lt_of_lt_of_le hlong hfront.length_le))

/-- Once the space has come, more bytes do not spoil a length. -/
theorem badLength_append_iff {s : Bytes} (h : (beforeSpace s).length < s.length) (more : Bytes) :
    BadLength (s ++ more) ↔ BadLength s := by
  refine ⟨fun hbad => ?_, fun hbad => hbad.append more⟩
  have hhead : (s ++ more).head? = s.head? := by
    cases s with
    | nil => cases h
    | cons b rest => rfl
  rw [BadLength, beforeSpace_append_of_lt h, hhead] at hbad
  rcases hbad with hb | ⟨hzero, -⟩ | hlong
  · exact Or.inl hb
  · exact Or.inr (Or.inl ⟨hzero, h⟩)
  · exact Or.inr (Or.inr hlong)

theorem beforeSpace_of_findIdx?_none {s : Bytes} (h : s.findIdx? isSpace = none) : beforeSpace s = s := by
  rw [List.findIdx?_eq_none_iff] at h
  have hall : ∀ b ∈ s, (!isSpace b) = true := fun b hb => by rw [h b hb]; rfl
  have := @List.takeWhile_append_of_pos _ _ s [] hall
  rwa [List.append_nil, List.takeWhile_nil, List.append_nil] at this

theorem beforeSpace_of_findIdx?_some {s : Bytes} {i : Nat} (h : s.findIdx? isSpace = some i) :
    beforeSpace s = s.take i := by
  induction s generalizing i with
  | nil => cases h
  | cons b rest ih =>
      rw [List.findIdx?_cons] at h
      cases hb : isSpace b with
      | true =>
          simp only [hb, if_true, Option.some.injEq] at h
          subst h
          simp [beforeSpace, hb]
      | false =>
          simp only [hb, Bool.false_eq_true, if_false, Option.map_eq_some_iff] at h
          obtain ⟨j, hj, rfl⟩ := h
          have hrest := ih hj
          rw [beforeSpace] at hrest ⊢
          simp [hb, hrest]

/-- A window without a space holds a part of a length, or all of one that is too long. -/
theorem window_of_findIdx?_none {s : Bytes} (h : (s.take (maxDigits + 1)).findIdx? isSpace = none) :
    (maxDigits < s.length → maxDigits < (beforeSpace s).length) ∧
      (s.length ≤ maxDigits → beforeSpace s = s) := by
  have hwindow := beforeSpace_prefix_append (s.take (maxDigits + 1)) (s.drop (maxDigits + 1))
  rw [List.take_append_drop, beforeSpace_of_findIdx?_none h] at hwindow
  refine ⟨fun hlong => ?_, fun hshort => ?_⟩
  · have hle := hwindow.length_le
    rw [List.length_take] at hle
    omega
  · rw [List.take_of_length_le (by omega)] at hwindow
    exact (hwindow.eq_of_length_le (length_beforeSpace_le s)).symm

/-- A space in a window is the first of all. -/
theorem window_of_findIdx?_some {s : Bytes} {space : Nat}
    (h : (s.take (maxDigits + 1)).findIdx? isSpace = some space) :
    space < s.length ∧ space ≤ maxDigits ∧ beforeSpace s = s.take space := by
  have hlt := (List.findIdx?_eq_some_iff_getElem.mp h).1
  have hbefore := beforeSpace_of_findIdx?_some h
  rw [List.length_take] at hlt
  rw [List.take_take, Nat.min_eq_left (by omega)] at hbefore
  have hshort : (beforeSpace (s.take (maxDigits + 1))).length < (s.take (maxDigits + 1)).length := by
    rw [hbefore, List.length_take, List.length_take]
    omega
  have hself := beforeSpace_append_of_lt hshort (s.drop (maxDigits + 1))
  rw [List.take_append_drop, hbefore] at hself
  exact ⟨by omega, by omega, hself⟩

theorem badLength_iff_of_unfinished {s : Bytes} (hself : beforeSpace s = s) (hshort : s.length ≤ maxDigits) :
    BadLength s ↔ s.all Bytes.isDigit = false := by
  rw [BadLength, hself, List.all_eq_false]
  refine ⟨fun hbad => ?_, fun ⟨b, hb, hdigit⟩ => Or.inl ⟨b, hb, by simpa using hdigit⟩⟩
  rcases hbad with ⟨b, hb, hdigit⟩ | ⟨-, hlt⟩ | hlong
  · exact ⟨b, hb, by simp [hdigit]⟩
  · exact absurd hlt (Nat.lt_irrefl _)
  · omega

theorem badLength_iff_of_complete {s : Bytes} {space : Nat} (hself : beforeSpace s = s.take space)
    (hpos : 0 < space) (hlt : space < s.length) (hshort : space ≤ maxDigits) :
    BadLength s ↔ (s.take space).head? = some 48 ∨ (s.take space).all Bytes.isDigit = false := by
  have hhead : (s.take space).head? = s.head? := by rw [List.head?_take, if_neg (by omega)]
  have hlen : (s.take space).length = space := List.length_take_of_le (by omega)
  rw [BadLength, hself, hlen, hhead, List.all_eq_false]
  constructor
  · rintro (⟨b, hb, hdigit⟩ | ⟨hzero, -⟩ | hlong)
    · exact Or.inr ⟨b, hb, by simp [hdigit]⟩
    · exact Or.inl hzero
    · omega
  · rintro (hzero | ⟨b, hb, hdigit⟩)
    · exact Or.inr (Or.inl ⟨hzero, hlt⟩)
    · exact Or.inl ⟨b, hb, by simpa using hdigit⟩

/-- What there is to read at the front of bytes that do not begin with a space. -/
inductive Reads (s : Bytes) : Except Desync (Option (Nat × Nat)) → Prop where
  | bad (desync : Desync) : BadLength s → Reads s (.error desync)
  | unfinished : ¬ BadLength s → (beforeSpace s).length = s.length → Reads s (.ok none)
  | complete : ¬ BadLength s → (beforeSpace s).length < s.length →
      Reads s (.ok (some (Bytes.decimal (beforeSpace s), (beforeSpace s).length + 1)))

/-- The window of a decoder is wide enough to tell whether a length can be read. -/
theorem reads_readHeader {s : Bytes} (hfront : beforeSpace s = [] → s = []) : Reads s (readHeader s) := by
  unfold readHeader
  split
  · next hnone =>
      obtain ⟨hlong, hshort⟩ := window_of_findIdx?_none hnone
      split
      · next hlen => exact .bad _ (Or.inr (Or.inr (hlong hlen)))
      · next hlen =>
          have hself := hshort (Nat.le_of_not_lt hlen)
          have hbad := badLength_iff_of_unfinished hself (Nat.le_of_not_lt hlen)
          split
          · next hdigits => exact .unfinished (by simp [hbad, hdigits]) (by rw [hself])
          · next hdigits => exact .bad _ (hbad.mpr (Bool.eq_false_iff.mpr hdigits))
  · next space hspace =>
      obtain ⟨hlt, hshort, hself⟩ := window_of_findIdx?_some hspace
      have hlen : (beforeSpace s).length = space := by rw [hself, List.length_take_of_le (by omega)]
      have hne : s.take space ≠ [] := fun hnil => by
        rw [hfront (hself.trans hnil)] at hlt
        exact absurd hlt (Nat.not_lt_zero _)
      have hpos : 0 < space := by
        have := List.length_pos_iff.mpr hne
        rwa [← hself, hlen] at this
      have hbad := badLength_iff_of_complete hself hpos hlt hshort
      simp only [List.isEmpty_eq_false_iff.mpr hne, Bool.false_or, Bool.or_eq_true, beq_iff_eq, Bool.not_eq_true']
      split
      · next hwrong => exact .bad _ (hbad.mpr hwrong)
      · next hright =>
          have hcomplete : Reads s _ := .complete (mt hbad.mp hright) (by omega)
          rwa [hlen, hself] at hcomplete

/-! ## The whole stream -/

/-- The meaning of a stream that begins before a length, `start` bytes after the first. Of a record that is too
large, as many bytes are skipped as it has, or all there are. -/
def parse (limit start : Nat) (s : Bytes) : Parse :=
  let text := s.dropWhile Bytes.isBlank
  let digits := beforeSpace text
  if BadLength text then .lost
  else if _unfinished : digits.length = text.length then .rest none text.length
  else
    let length := Bytes.decimal digits
    let opened := start + (s.length - text.length) + (digits.length + 1)
    let body := text.drop (digits.length + 1)
    if limit < length then
      (parse limit (opened + length) (body.drop length)).prepend [⟨opened, .malformed (.oversized length limit)⟩]
    else if body.length < length then .rest none body.length
    else (parse limit (opened + length) (body.drop length)).prepend [⟨opened + length, .record (body.take length)⟩]
  termination_by s.length
  decreasing_by
    all_goals
      have hle : (beforeSpace (s.dropWhile Bytes.isBlank)).length ≤ (s.dropWhile Bytes.isBlank).length :=
        length_beforeSpace_le _
      have hskip : (s.dropWhile Bytes.isBlank).length ≤ s.length := (List.dropWhile_sublist _).length_le
      have hne : (beforeSpace (s.dropWhile Bytes.isBlank)).length ≠ (s.dropWhile Bytes.isBlank).length := _unfinished
      simp only [List.length_drop]
      omega

/-- What is left inside of a record of the given length. -/
def inBody (limit start length : Nat) (s : Bytes) : Parse :=
  if s.length < length then .rest none s.length
  else (parse limit (start + length) (s.drop length)).prepend [⟨start + length, .record (s.take length)⟩]

/-- What is left once the blanks before a length have been skipped. -/
def atLength (limit start : Nat) (s : Bytes) : Parse :=
  let digits := beforeSpace s
  if BadLength s then .lost
  else if digits.length = s.length then .rest none s.length
  else
    let length := Bytes.decimal digits
    let opened := start + (digits.length + 1)
    let body := s.drop (digits.length + 1)
    if limit < length then
      (parse limit (opened + length) (body.drop length)).prepend [⟨opened, .malformed (.oversized length limit)⟩]
    else inBody limit opened length body

theorem parse_eq (limit start : Nat) (s : Bytes) :
    parse limit start s = atLength limit (start + (s.length - (s.dropWhile Bytes.isBlank).length))
      (s.dropWhile Bytes.isBlank) := by
  rw [parse]
  rfl

theorem parse_dropWhile (limit start : Nat) (s more : Bytes) :
    parse limit start (s ++ more)
      = parse limit (start + (s.length - (s.dropWhile Bytes.isBlank).length))
          (s.dropWhile Bytes.isBlank ++ more) := by
  rw [parse_eq, parse_eq, Bytes.dropWhile_dropWhile_append, Bytes.length_sub_dropWhile_append, Nat.add_assoc]

theorem parse_nil (limit start : Nat) : parse limit start [] = .rest none 0 := by
  rw [parse]
  rfl

/-- Behind blanks nothing but the end comes before the first digit. -/
theorem eq_nil_of_beforeSpace_eq_nil {s : Bytes} (h : beforeSpace (s.dropWhile Bytes.isBlank) = []) :
    s.dropWhile Bytes.isBlank = [] := by
  have hhead := List.head?_dropWhile_not Bytes.isBlank s
  cases hs : s.dropWhile Bytes.isBlank with
  | nil => rfl
  | cons b rest =>
      rw [hs] at h hhead
      have hspace : isSpace b = false := by
        cases hb : isSpace b with
        | false => rfl
        | true =>
            obtain rfl : b = 32 := by simpa [isSpace] using hb
            have hblank : Bytes.isBlank 32 = false := hhead
            exact absurd hblank (by decide)
      simp [beforeSpace, hspace] at h

theorem atLength_append {s : Bytes} (hbad : ¬ BadLength s) (hlt : (beforeSpace s).length < s.length)
    (limit start : Nat) (more : Bytes) :
    atLength limit start (s ++ more) =
      let length := Bytes.decimal (beforeSpace s)
      let opened := start + ((beforeSpace s).length + 1)
      let body := s.drop ((beforeSpace s).length + 1) ++ more
      if limit < length then
        (parse limit (opened + length) (body.drop length)).prepend [⟨opened, .malformed (.oversized length limit)⟩]
      else inBody limit opened length body := by
  have hlen : ¬ (beforeSpace s).length = (s ++ more).length := by
    rw [List.length_append]; omega
  rw [atLength, beforeSpace_append_of_lt hlt, if_neg (by rwa [badLength_append_iff hlt]), if_neg hlen,
    List.drop_append_of_le_length hlt]

/-- Blanks that have been skipped are gone for good. -/
theorem parse_skipped {s : Bytes} (hne : s.dropWhile Bytes.isBlank ≠ []) (limit start : Nat) (more : Bytes) :
    parse limit start (s.dropWhile Bytes.isBlank ++ more)
      = atLength limit start (s.dropWhile Bytes.isBlank ++ more) := by
  rw [parse_eq, Bytes.dropWhile_append_of_ne_nil hne, Nat.sub_self, Nat.add_zero]

theorem BadLength.ne_nil {s : Bytes} (h : BadLength s) : s ≠ [] := by
  rintro rfl
  exact absurd h (by decide)

theorem ending_parse (limit start : Nat) (s : Bytes) :
    (parse limit start s).ending = .desync ∨ ∃ tail, (parse limit start s).ending = .closed none tail := by
  fun_induction parse limit start s with
  | case1 => exact Or.inl rfl
  | case2 => exact Or.inr ⟨_, rfl⟩
  | case3 _ _ _ _ _ _ _ _ _ _ ih => exact ih
  | case4 => exact Or.inr ⟨_, rfl⟩
  | case5 _ _ _ _ _ _ _ _ _ _ _ ih => exact ih

/-! ## Where frames are complete -/

theorem lt_stop_of_mem_parse {limit start : Nat} {s : Bytes} {q : Placed} (h : q ∈ (parse limit start s).placed) :
    start < q.stop := by
  fun_induction parse limit start s with
  | case1 => cases h
  | case2 => cases h
  | case3 start s text digits hbad hlen length opened body hlimit ih =>
      rcases List.mem_append.mp h with hq | hq
      · obtain rfl := List.mem_singleton.mp hq
        show start < opened
        omega
      · have := ih hq
        omega
  | case4 => cases h
  | case5 start s text digits hbad hlen length opened body hlimit hlong ih =>
      rcases List.mem_append.mp h with hq | hq
      · obtain rfl := List.mem_singleton.mp hq
        show start < opened + length
        omega
      · have := ih hq
        omega

theorem le_stop_of_mem_inBody {limit start length : Nat} {s : Bytes} {q : Placed}
    (h : q ∈ (inBody limit start length s).placed) : length ≤ s.length ∧ start + length ≤ q.stop := by
  unfold inBody at h
  split at h
  · cases h
  · refine ⟨by omega, ?_⟩
    rcases List.mem_append.mp h with hq | hq
    · obtain rfl := List.mem_singleton.mp hq
      exact Nat.le_refl _
    · exact Nat.le_of_lt (lt_stop_of_mem_parse hq)

theorem lt_stop_of_mem_atLength {limit start : Nat} {s : Bytes} {q : Placed}
    (h : q ∈ (atLength limit start s).placed) : start + (beforeSpace s).length < q.stop := by
  unfold atLength at h
  simp only at h
  split at h
  · cases h
  · split at h
    · cases h
    · split at h
      · rcases List.mem_append.mp h with hq | hq
        · obtain rfl := List.mem_singleton.mp hq
          show _ < start + ((beforeSpace s).length + 1)
          omega
        · have := lt_stop_of_mem_parse hq
          omega
      · have := (le_stop_of_mem_inBody h).2
        omega

theorem known_skipped {limit start length : Nat} {s more : Bytes}
    (ih : ∀ (t : Bytes), t.length ≤ s.length → ∀ start,
      (parse limit start (t ++ more)).known (start + t.length) = (parse limit start t).placed) :
    (parse limit (start + length) ((s ++ more).drop length)).known (start + s.length)
      = (parse limit (start + length) (s.drop length)).placed := by
  rcases Nat.lt_or_ge s.length length with hshort | hlong
  · -- The bytes to be skipped have not all come, and what is behind them is unknown.
    have hnil : s.drop length = [] := List.drop_eq_nil_of_le (by omega)
    rw [hnil, parse_nil]
    refine Parse.known_eq_nil fun q hq => ?_
    have := lt_stop_of_mem_parse hq
    omega
  · have hlen : (s.drop length).length = s.length - length := List.length_drop ..
    have hrest := ih (s.drop length) (by omega) (start + length)
    rw [show start + length + (s.drop length).length = start + s.length by omega] at hrest
    rw [List.drop_append_of_le_length hlong, hrest]

theorem known_inBody {limit start length : Nat} {s more : Bytes}
    (ih : ∀ (t : Bytes), t.length ≤ s.length → ∀ start,
      (parse limit start (t ++ more)).known (start + t.length) = (parse limit start t).placed) :
    (inBody limit start length (s ++ more)).known (start + s.length) = (inBody limit start length s).placed := by
  rcases Nat.lt_or_ge s.length length with hshort | hlong
  · have hnil : (inBody limit start length s).placed = [] := by rw [inBody, if_pos hshort]; rfl
    rw [hnil]
    refine Parse.known_eq_nil fun q hq => ?_
    have := (le_stop_of_mem_inBody hq).2
    omega
  · rw [inBody, inBody, if_neg (by rw [List.length_append]; omega), if_neg (by omega), Parse.known_prepend,
      known_skipped ih, List.take_append_of_le_length hlong, List.filter_cons_of_pos (by simp; omega)]
    rfl

theorem known_atLength {limit start : Nat} {s more : Bytes}
    (ih : ∀ (t : Bytes), t.length < s.length → ∀ start,
      (parse limit start (t ++ more)).known (start + t.length) = (parse limit start t).placed) :
    (atLength limit start (s ++ more)).known (start + s.length) = (atLength limit start s).placed := by
  by_cases hbad : BadLength s
  · rw [atLength, atLength, if_pos (hbad.append more), if_pos hbad]
    rfl
  · rcases Nat.lt_or_eq_of_le (length_beforeSpace_le s) with hlt | heq
    · have hlen : (s.drop ((beforeSpace s).length + 1)).length = s.length - ((beforeSpace s).length + 1) :=
        List.length_drop ..
      have hnone := atLength_append hbad hlt limit start []
      rw [List.append_nil, List.append_nil] at hnone
      rw [atLength_append hbad hlt, hnone]
      simp only
      rw [show start + s.length = start + ((beforeSpace s).length + 1)
        + (s.drop ((beforeSpace s).length + 1)).length by omega]
      split
      · rw [Parse.known_prepend, known_skipped fun t ht => ih t (by omega), List.filter_cons_of_pos (by simp)]
        rfl
      · exact known_inBody fun t ht => ih t (by omega)
    · have hnil : (atLength limit start s).placed = [] := by rw [atLength, if_neg hbad, if_pos heq]; rfl
      rw [hnil]
      refine Parse.known_eq_nil fun q hq => ?_
      have := lt_stop_of_mem_atLength hq
      rw [beforeSpace_append_of_eq heq, List.length_append] at this
      omega

theorem known_parse (limit start : Nat) (s more : Bytes) :
    (parse limit start (s ++ more)).known (start + s.length) = (parse limit start s).placed := by
  refine Parse.known_of_front (parse_dropWhile limit) (parse_nil limit) (fun _ _ _ => lt_stop_of_mem_parse) ?_
    start s more
  intro start s more hne hdropped ih
  have hskipped := parse_skipped (s := s) (by rwa [hdropped]) limit start
  rw [hdropped] at hskipped
  have hnone := hskipped []
  rw [List.append_nil] at hnone
  rw [hskipped, hnone]
  exact known_atLength ih

/-! ## The meaning of a decoder -/

def future (f : Framer State) (more : Bytes) (start : Nat) : Parse :=
  match f.state with
  | .header => parse f.limit start (f.buffer ++ more)
  | .body length => inBody f.limit start length (f.buffer ++ more)
  | .skip remaining => parse f.limit (start + remaining) ((f.buffer ++ more).drop remaining)

/-- What has come of an unfinished length or record; one that is skipped has been reported before. -/
def leftover (f : Framer State) : Option Malformed × Nat :=
  match f.state with
  | .skip _ => (none, 0)
  | _ => (none, f.buffer.length)

def meaning : Framer.Meaning State :=
  { Sound := fun _ => True, future, leftover, fresh := .header }

theorem handover_body (f : Framer State) (length : Nat) :
    meaning.Handover (fun more start => inBody f.limit start length (f.buffer ++ more)) f
      (body f length).1 (body f length).2 := by
  unfold body
  split
  · next hshort =>
      refine .of_quiet rfl rfl trivial (fun more start => ⟨_, rfl, rfl⟩) fun start => ?_
      show inBody f.limit start length (f.buffer ++ []) = _
      rw [List.append_nil, inBody, if_pos hshort]
      rfl
  · next hlong =>
      refine .of_frame rfl rfl trivial fun more start => ?_
      rw [inBody, if_neg (by rw [List.length_append]; omega), List.drop_append_of_le_length (by omega),
        List.take_append_of_le_length (by omega)]
      exact ⟨_, Parse.frames_prepend .., rfl⟩

theorem handover_header (f : Framer State) :
    meaning.Handover (fun more start => parse f.limit start (f.buffer ++ more)) f (header f).1 (header f).2 := by
  have hfront : ∀ more start, (parse f.limit start (f.buffer ++ more)).Yields []
      fun start => parse f.limit start (f.buffer.dropWhile Bytes.isBlank ++ more) := fun more start => by
    rw [parse_dropWhile]
    exact ⟨_, rfl, rfl⟩
  have hreads := reads_readHeader (s := f.buffer.dropWhile Bytes.isBlank) eq_nil_of_beforeSpace_eq_nil
  unfold header
  simp only
  split
  · next desync hread =>
      rw [hread] at hreads
      cases hreads with
      | bad _ hbad =>
          refine ⟨rfl, rfl, trivial, hfront, fun hq => ?_, fun _ _ more start => ?_⟩
          · cases hq
          · show parse f.limit start (f.buffer.dropWhile Bytes.isBlank ++ more) = .lost
            rw [parse_skipped hbad.ne_nil, atLength, if_pos (hbad.append more)]
  · next hread =>
      rw [hread] at hreads
      cases hreads with
      | unfinished hbad hlen =>
          refine .of_quiet rfl rfl trivial hfront fun start => ?_
          show parse f.limit start (f.buffer.dropWhile Bytes.isBlank ++ [])
            = .rest none (f.buffer.dropWhile Bytes.isBlank).length
          by_cases hne : f.buffer.dropWhile Bytes.isBlank = []
          · rw [hne]; exact parse_nil ..
          · rw [parse_skipped hne, List.append_nil, atLength, if_neg hbad, if_pos hlen]
  · next length taken hread =>
      rw [hread] at hreads
      cases hreads with
      | complete hbad hlt =>
          have hne : f.buffer.dropWhile Bytes.isBlank ≠ [] := by
            intro h; rw [h] at hlt; cases hlt
          have hopen : ∀ more start, (parse f.limit start (f.buffer ++ more)).Yields []
              fun start => atLength f.limit start (f.buffer.dropWhile Bytes.isBlank ++ more) := fun more start => by
            have := hfront more start
            simp only [parse_skipped hne] at this
            exact this
          split
          · next hlimit =>
              refine .of_frame rfl rfl trivial fun more start => (hopen more start).trans fun start => ?_
              rw [atLength_append hbad hlt, if_pos hlimit]
              exact ⟨_, Parse.frames_prepend .., rfl⟩
          · next hlimit =>
              refine (handover_body _ _).of_yields rfl rfl fun more start => (hopen more start).trans fun start => ?_
              rw [atLength_append hbad hlt, if_neg hlimit]
              exact ⟨_, rfl, rfl⟩

theorem handover_skip (f : Framer State) (remaining : Nat) :
    meaning.Handover (fun more start => parse f.limit (start + remaining) ((f.buffer ++ more).drop remaining)) f
      (skip f remaining).1 (skip f remaining).2 := by
  unfold skip
  simp only
  split
  · next hshort =>
      have hnil : f.buffer.drop remaining = [] := List.drop_eq_nil_of_le (by omega)
      rw [hnil]
      refine .of_quiet rfl rfl trivial (fun more start => ⟨start + f.buffer.length, ?_⟩) fun start => ?_
      · have hstart : start + remaining = start + f.buffer.length + (remaining - f.buffer.length) := by omega
        rw [List.drop_append, hnil, hstart]
        exact ⟨rfl, rfl⟩
      · show parse f.limit _ (([] ++ []).drop _) = _
        rw [List.append_nil, List.drop_nil, parse_nil]
        rfl
  · next hlong =>
      refine (handover_header _).of_yields rfl rfl fun more start => ?_
      rw [List.drop_append_of_le_length (by omega)]
      exact ⟨_, rfl, rfl⟩

theorem handover_next (f : Framer State) : meaning.Handover (future f) f (next f).1 (next f).2 := by
  have hfuture : future f = fun more start => future f more start := rfl
  cases hs : f.state with
  | header =>
      simp only [future, hs] at hfuture
      simp only [next, hs, hfuture]
      exact handover_header f
  | body length =>
      simp only [future, hs] at hfuture
      simp only [next, hs, hfuture]
      exact handover_body f length
  | skip remaining =>
      simp only [future, hs] at hfuture
      simp only [next, hs, hfuture]
      exact handover_skip f remaining

theorem closure_finish (f : Framer State) : meaning.Closure f (finish f).1 (finish f).2 := by
  have hnext := handover_next f
  unfold finish
  split
  · next g hg =>
      rw [hg] at hnext
      split
      · next remaining hs =>
          have hleft : leftover g = (none, 0) := by simp only [leftover, hs]
          exact hnext.closure_discard rfl rfl rfl trivial hleft rfl
      · next hs =>
          have hleft : leftover g = (none, 0 + g.buffer.length) := by
            cases hstate : g.state with
            | skip remaining => exact absurd hstate (hs remaining)
            | _ => simp only [leftover, hstate, Nat.zero_add]
          exact hnext.closure_discard rfl rfl rfl trivial hleft rfl
  · next hne => exact hnext.closure fun h => hne _ (Prod.ext rfl h)

end LogIntake.OctetCounting
