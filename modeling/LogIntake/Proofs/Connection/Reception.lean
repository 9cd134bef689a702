import LogIntake.Proofs.Connection.Attention

/-!
# What workers receive

What a worker has received of its connection is what it has read in, and the rest is still to come (`Receives`). When no
frame has come in time, all frames of what has been received have been taken: a worker that waits has nothing complete
left, however much it has received.
-/

namespace LogIntake

/-- All bytes that the connection can give. -/
def Assignment.content (a : Assignment) : Bytes :=
  (Source.mk a.steps none).content

namespace Worker

/-- A worker has received so much of its connection and taken these frames of it. -/
structure Receives (w : Worker) (a : Assignment) (received : Bytes) (given : List Frame) : Prop where
  following : w.reader.Following a.options.framing a.options.maxRecordSize received given
  content : a.content = received ++ w.reader.source.content

variable {w v : Worker} {a : Assignment} {p : Prospect} {received : Bytes} {given : List Frame}
  {now deadline : Instant} {stopping : Bool} {q : Queue} {allowance : Nat}

theorem readIn_of_looks (hlooks : w.deadline? now = some deadline) (hspare : allowance ≠ 0)
    (hrunning : stopping = false) : w.readIn now stopping q allowance
      = w.reader.taken (w.reader.next now (w.newest? q) allowance).reader := by
  have hgoes : ¬ (allowance = 0 ∨ stopping = true) := by
    rw [hrunning]
    exact not_or.mpr ⟨hspare, Bool.false_ne_true⟩
  unfold deadline? at hlooks
  unfold readIn
  cases hphase : w.phase with
  | ready => exact if_neg hgoes
  | waiting deadline => exact if_neg hgoes
  | _ =>
      rw [hphase] at hlooks
      cases hlooks

theorem readIn_of_idle (h : allowance = 0 ∨ stopping = true) : w.readIn now stopping q allowance = [] := by
  unfold readIn
  split
  · exact if_pos h
  · exact if_pos h
  · rfl

/-- What has been received and taken after a turn. When no frame has come in time, all frames of what has been received
have been taken. -/
structure Turn.Receives (t : Turn) (a : Assignment) (received : Bytes) (given : List Frame) : Prop where
  isPrefix : received <+: a.content
  going : ∀ v, t.next.worker? = some v → v.Receives a received given
  timeout : ∀ k, t.next.closing? = some k → k.summary.reason = .timeout →
    (a.options.framing.meaning a.options.maxRecordSize received).frames = given

/-- A worker that does not look at its connection receives nothing. -/
theorem Receives.same {t : Turn} (h : w.Receives a received given)
    (hnext : ∀ v, t.next.worker? = some v → v.reader = w.reader)
    (hended : ∀ k, t.next.closing? = some k → k.summary.reason ≠ .timeout) :
    t.Receives a (received ++ []) (given ++ (none : Option Frame).toList) := by
  rw [Option.toList_none, List.append_nil, List.append_nil]
  refine ⟨h.content ▸ List.prefix_append .., fun v hv => ?_, fun k hk htimeout => absurd htimeout (hended k hk)⟩
  exact ⟨(hnext v hv).symm ▸ h.following, (hnext v hv).symm ▸ h.content⟩

theorem Finds.receives {result : Reader.Result} {heard : Prospect.Heard} {t : Turn}
    (h : w.Finds now deadline q a.options.framing a.options.maxRecordSize result heard t)
    (htells : result.Tells a.options.framing a.options.maxRecordSize received given)
    (hcontent : a.content = received ++ result.reader.source.content) :
    t.Receives a received (given ++ heard.frame?.toList) := by
  have hgoes {v : Worker} (hreader : v.reader = result.reader) (hfollowing : result.reader.Following a.options.framing
      a.options.maxRecordSize received (given ++ heard.frame?.toList)) :
      v.Receives a received (given ++ heard.frame?.toList) :=
    ⟨hreader.symm ▸ hfollowing, hreader.symm ▸ hcontent⟩
  have hends {t : Turn} (hgoing : ∀ v, t.next.worker? = some v → v.Receives a received (given ++ heard.frame?.toList))
      (hreason : ∀ k, t.next.closing? = some k → k.summary.reason ≠ .timeout) :
      t.Receives a received (given ++ heard.frame?.toList) :=
    ⟨hcontent ▸ List.prefix_append .., hgoing, fun k hk htimeout => absurd htimeout (hreason k hk)⟩
  -- A worker that waits has taken all frames of what it has received.
  have hwaits (next : Worker → Next) (events : List Event) (hnext : ∀ v, (next v).worker? = some v)
      (hnone : heard.frame? = none) (hfilling : result.reader.stage = .filling)
      (hfollowing : result.reader.Following a.options.framing a.options.maxRecordSize received given) :
      ({ w with reader := result.reader }.await now deadline q events result.allowance next).Receives a received
        (given ++ heard.frame?.toList) := by
    rw [hnone, Option.toList_none, List.append_nil] at hgoes ⊢
    refine ⟨hcontent ▸ List.prefix_append .., fun v hv => ?_, fun k hk htimeout => ?_⟩
    · obtain ⟨-, rfl⟩ := waits_of_await hnext hv
      exact hgoes rfl hfollowing
    · obtain ⟨hfollows, hquiet⟩ := hfollowing.of_filling hfilling
      obtain ⟨-, -, hframes, -⟩ := hfollows.meaning_of_quiet hquiet
      exact hframes
  unfold Reader.Result.Tells at htells
  cases h with
  | record payload events harrival =>
      rw [harrival] at htells
      refine hends (fun v hv => hgoes (aside_handleRecord hv).1 htells) fun k hk => ?_
      rw [reason_handleRecord hk]
      exact CloseReason.noConfusion
  | malformed unit events harrival =>
      rw [harrival] at htells
      refine hends (fun v hv => hgoes (aside_handleMalformed hv).1 htells) fun k hk => ?_
      rw [reason_handleMalformed hk]
      exact CloseReason.noConfusion
  | blocked events harrival hrest hfilling =>
      rw [harrival] at htells
      exact hwaits .blocked events (fun v => rfl) rfl hfilling htells
  | spent events harrival hrest hfilling =>
      rw [harrival] at htells
      exact hwaits .spent events (fun v => rfl) rfl hfilling htells
  | _ =>
      refine hends (fun v hv => nomatch hv) fun k hk => ?_
      obtain rfl := Option.some.inj hk
      exact CloseReason.noConfusion

/-- After a step all is as it was before, with what has been read in and taken. -/
theorem Receives.step (h : w.Receives a received given)
    (hplays : w.reader.Plays a.options.framing a.options.maxRecordSize p) (now : Instant) (stopping : Bool)
    (q : Queue) (allowance : Nat) :
    (w.step now stopping q allowance).Receives a (received ++ w.readIn now stopping q allowance)
      (given ++ (w.frame? now stopping q allowance).toList) := by
  have hdoes := does_step hplays now stopping q allowance
  generalize w.frame? now stopping q allowance = taken at *
  generalize w.step now stopping q allowance = t at *
  cases hdoes with
  | starts hphase =>
      rw [readIn, hphase]
      refine h.same (fun v hv => ?_) (fun k hk => nomatch hk)
      obtain rfl := Option.some.inj hv
      rfl
  | spends hlooks hspent =>
      rw [readIn_of_idle (.inl hspent)]
      refine h.same (fun v hv => ?_) (fun k hk => nomatch hk)
      obtain rfl := Option.some.inj hv
      rfl
  | stops hlooks hspare htold =>
      rw [readIn_of_idle (.inr htold)]
      refine h.same (fun v hv => nomatch hv) fun k hk => ?_
      obtain rfl := Option.some.inj hk
      exact CloseReason.noConfusion
  | pushes payload hphase =>
      rw [readIn, hphase]
      refine h.same (fun v hv => (aside_handleRecord hv).1) fun k hk => ?_
      rw [reason_handleRecord hk]
      exact CloseReason.noConfusion
  | resumes ticket q' result hphase =>
      rw [readIn, hphase]
      cases result with
      | taken =>
          refine h.same (fun v hv => ?_) (fun k hk => nomatch hk)
          obtain rfl := Option.some.inj hv
          rfl
      | failed e =>
          refine h.same (fun v hv => nomatch hv) fun k hk => ?_
          obtain rfl := Option.some.inj hk
          exact CloseReason.noConfusion
  | waits ticket hphase =>
      rw [readIn, hphase]
      refine h.same (fun v hv => ?_) (fun k hk => nomatch hk)
      obtain rfl := Option.some.inj hv
      rfl
  | finds hlooks hspare hrunning hfound =>
      obtain ⟨bytes, hcontent, htells⟩ := h.following.next now (w.newest? q) allowance
      rw [readIn_of_looks hlooks hspare hrunning, Reader.taken_of_content hcontent]
      refine hfound.receives htells ?_
      rw [h.content, hcontent, List.append_assoc]

end Worker

end LogIntake
