import LogIntake.Proofs.Framing.RoundTrip

/-!
# Starting over after anything

Whatever has been sent, a close tag and an open tag put a stream of tagged records inside of a record, and a
line feed puts a stream of lines between two lines. A record behind these is read as it is, and the decoder is
as good as new: nothing of what came before can spoil what comes later (`recovers_after_anything`).
-/

namespace LogIntake

namespace Tagged

/-- A close tag cannot complete an open tag. -/
theorem indexOf?_openTag_append_closeTag {text : Bytes} (h : Bytes.indexOf? openTag text = none) :
    Bytes.indexOf? openTag (text ++ closeTag) = none := by
  have hfragments : ∀ k < openTag.length, Bytes.indexOf? openTag (openTag.take k ++ closeTag) = none := by decide
  rw [Bytes.indexOf?_append_of_none openTag_ne_nil h, Bytes.drop_settled openTag_ne_nil,
    hfragments _ (Bytes.overlap_lt openTag_ne_nil text)]
  rfl

/-- Behind a close tag and an open tag the stream is inside of a record, whatever came before. -/
theorem exists_yields_inside (limit : Nat) (garbage : Bytes) :
    ∃ frames, ∀ start more, (parse limit start (garbage ++ (closeTag ++ (openTag ++ more)))).Yields frames
      fun start => inside limit start 0 more := by
  induction hn : garbage.length using Nat.strongRecOn generalizing garbage with
  | ind n ih =>
      subst hn
      have hfront : (garbage ++ closeTag).dropWhile Bytes.isBlank = garbage.dropWhile Bytes.isBlank ++ closeTag :=
        Bytes.dropWhile_append_front rfl garbage
      have hskip : (garbage.dropWhile Bytes.isBlank).length ≤ garbage.length := (List.dropWhile_sublist _).length_le
      cases hopen : Bytes.indexOf? openTag (garbage.dropWhile Bytes.isBlank) with
      | none =>
          -- There is no record, and the close tag is a part of the junk.
          have hjunk := indexOf?_openTag_append_closeTag hopen
          rw [← hfront] at hjunk
          refine ⟨(unframed ((garbage ++ closeTag).dropWhile Bytes.isBlank).length).toList.map .malformed,
            fun start more => ?_⟩
          rw [← List.append_assoc]
          exact parse_opened hjunk limit start more
      | some junk =>
          have hopened := outside_of_indexOf? hopen limit
          have hlen : ((garbage.dropWhile Bytes.isBlank).drop (junk + openTag.length)).length < garbage.length := by
            have hle := Bytes.le_length_of_indexOf? openTag_ne_nil hopen
            have hpos : 0 < openTag.length := List.length_pos_iff.mpr openTag_ne_nil
            rw [List.length_drop]
            omega
          generalize (garbage.dropWhile Bytes.isBlank).drop (junk + openTag.length) = record at hopened hlen
          have hbegin : ∀ start more, (parse limit start (garbage ++ (closeTag ++ (openTag ++ more)))).Yields
              ((unframed (0 + junk)).toList.map .malformed)
              fun start => inside limit start 0 (record ++ (closeTag ++ (openTag ++ more))) := fun start more => by
            rw [parse_eq, Bytes.dropWhile_append_front rfl]
            exact hopened _ 0 _
          cases hclose : Bytes.indexOf? closeTag record with
          | none =>
              -- The close tag ends a record that has been open.
              rw [Bytes.indexOf?_eq_none_iff_not_isInfix closeTag_ne_nil] at hclose
              exact ⟨_, fun start more => ((hbegin start more).trans fun start =>
                inside_closed hclose limit start (openTag ++ more)).trans fun start =>
                  @parse_opened [] rfl limit start more⟩
          | some size =>
              obtain ⟨frames, hrest⟩ := ih (record.drop (size + closeTag.length)).length
                (by rw [List.length_drop]; omega) _ rfl
              exact ⟨_, fun start more => ((hbegin start more).trans fun start =>
                inside_of_indexOf? hclose limit start 0 _).trans fun start => hrest start more⟩

theorem exists_whole (limit : Nat) (garbage : Bytes) {payload : Bytes} (h : ¬ closeTag <:+: payload) :
    ∃ before, Framing.tagged.Whole limit (garbage ++ closeTag ++ openTag ++ payload ++ closeTag)
      (before ++ [.ofPayload limit payload]) := by
  obtain ⟨before, hbefore⟩ := exists_yields_inside limit garbage
  refine ⟨before, fun more start => ?_⟩
  have hyields := (hbefore start (payload ++ (closeTag ++ more))).trans fun start =>
    inside_closed h limit start more
  simpa only [Framing.read, List.append_assoc] using hyields

end Tagged

namespace Newline

/-- A line feed ends whatever came before. -/
theorem exists_whole_lines (limit : Nat) (garbage : Bytes) :
    ∃ frames, Framing.newline.Whole limit (garbage ++ [10]) frames := by
  induction hn : garbage.length using Nat.strongRecOn generalizing garbage with
  | ind n ih =>
      subst hn
      cases hstop : garbage.findIdx? isLineFeed with
      | none =>
          have hline : 10 ∉ garbage := fun hmem => by
            rw [List.findIdx?_eq_none_iff] at hstop
            cases hstop 10 hmem
          refine ⟨(lineFrame limit garbage).toList, fun more start => ?_⟩
          rw [List.append_assoc]
          exact parse_line hline limit start more
      | some stop =>
          have hlt := lt_length_of_findIdx? hstop
          obtain ⟨frames, hrest⟩ := ih (garbage.drop (stop + 1)).length (by rw [List.length_drop]; omega) _ rfl
          refine ⟨(lineFrame limit (garbage.take stop)).toList ++ frames, fun more start => ?_⟩
          rw [List.append_assoc]
          refine (yields_of_findIdx? hstop limit start ([10] ++ more)).trans fun start => ?_
          rw [← List.append_assoc]
          exact hrest more start

theorem exists_whole (limit : Nat) (garbage : Bytes) {payload : Bytes} (h : Framing.newline.Carries payload) :
    ∃ before, Framing.newline.Whole limit (garbage ++ [10] ++ payload ++ [10])
      (before ++ [.ofPayload limit (trimReturn payload)]) := by
  obtain ⟨before, hbefore⟩ := exists_whole_lines limit garbage
  have hrun : Framing.newline.Tolerates [] := rfl
  have hwhole := hbefore.append (Framing.whole_unit hrun h limit)
  rw [List.nil_append, Framing.encode, ← List.append_assoc] at hwhole
  exact ⟨before, hwhole⟩

end Newline

namespace Decoder

/-- A payload is the last that these bytes bring, and behind them everything is as with a new decoder, whether it
has been asked in between or not. -/
def Recovers (framing : Framing) (limit : Nat) (s payload : Bytes) : Prop :=
  ∃ before : List Frame,
    (∀ calls, received calls = s → (start framing limit).drained calls
      = (start framing limit, (before ++ [Frame.record payload]).map .ok)) ∧
    ∀ calls later, received calls = s ++ received later →
      ((start framing limit).drained calls).2
          = (before ++ [Frame.record payload]).map .ok ++ ((start framing limit).drained later).2 ∧
        ((start framing limit).finished calls).2
          = (before ++ [Frame.record payload]).map .ok ++ ((start framing limit).finished later).2 ∧
        ((start framing limit).finished calls).1.discarded = ((start framing limit).finished later).1.discarded

theorem recovers_of_whole {framing : Framing} {limit : Nat} {s payload : Bytes} {before : List Frame}
    (hwhole : framing.Whole limit s (before ++ [.ofPayload limit payload])) (hsize : payload.length ≤ limit)
    (hclosed : ∀ s, ∃ last tail, (framing.meaning limit s).ending = .closed last tail) :
    Recovers framing limit s payload := by
  rw [Frame.ofPayload, if_pos hsize] at hwhole
  refine ⟨before, fun calls hcalls => drained_of_whole (by rwa [hcalls]), fun calls later hcalls => ?_⟩
  obtain ⟨last, tail, hending⟩ := hclosed (received calls)
  exact answers_behind hwhole hcalls hending

/-- Whatever came before, what ends a unit of any kind lets a decoder read the next payload as it is, and then
everything behind it as if nothing had been sent before. -/
theorem recovers_after_anything (limit : Nat) (garbage payload : Bytes) (hsize : payload.length ≤ limit) :
    (¬ Tagged.closeTag <:+: payload → Recovers .tagged limit
        (garbage ++ Tagged.closeTag ++ Tagged.openTag ++ payload ++ Tagged.closeTag) payload) ∧
      (10 ∉ payload → payload.getLast? ≠ some 13 → (∃ b ∈ payload, Bytes.isBlank b = false) →
        Recovers .newline limit (garbage ++ [10] ++ payload ++ [10]) payload) := by
  constructor
  · intro hclose
    obtain ⟨before, hwhole⟩ := Tagged.exists_whole limit garbage hclose
    exact recovers_of_whole hwhole hsize (Tagged.ending_parse limit 0)
  · intro hfeed hreturn hblank
    obtain ⟨before, hwhole⟩ := Newline.exists_whole limit garbage ⟨hfeed, hblank⟩
    have hkept : Newline.trimReturn payload = payload := by
      refine if_neg fun hends => ?_
      obtain ⟨b, hlast, rfl⟩ : ∃ b, payload.getLast? = some b ∧ b = 13 := by
        simpa [Newline.endsWithReturn, Newline.isReturn, Option.any_eq_true] using hends
      exact hreturn hlast
    rw [hkept] at hwhole
    refine recovers_of_whole hwhole hsize fun s => ?_
    obtain ⟨tail, hending⟩ := Newline.ending_parse limit 0 s
    exact ⟨none, tail, hending⟩

/-- The garbage ends inside of a record that is too large, with a part of its close tag. -/
theorem recovers_after_fragment :
    let garbage := Tagged.openTag ++ [65, 66, 67, 68, 60, 47, 114]
    Recovers .tagged 3 (garbage ++ Tagged.closeTag ++ Tagged.openTag ++ [60, 47, 69] ++ Tagged.closeTag) [60, 47, 69] ∧
      Recovers .newline 3 (garbage ++ [10] ++ [13, 60, 69] ++ [10]) [13, 60, 69] := by
  intro garbage
  exact ⟨(recovers_after_anything 3 garbage [60, 47, 69] (by decide)).1 (by decide),
    (recovers_after_anything 3 garbage [13, 60, 69] (by decide)).2 (by decide) (by decide) (by decide)⟩

end Decoder

end LogIntake
