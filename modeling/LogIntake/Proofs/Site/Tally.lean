import LogIntake.Proofs.Connection.Prospect
import LogIntake.Proofs.Delivery
import LogIntake.Proofs.Site.Admission

/-!
# What connections leave behind

The records of a connection are the first of those that its peer sends. When the connection has ended, there are as
many as its worker has told.
-/

namespace LogIntake.Site

/-- What the records of a connection carry, with their numbers. -/
def recordsOf (s : Site) (connection : Nat) : List (Bytes × Nat) :=
  (s.records.filter (·.connection == connection)).map fun r => (r.payload, r.sequence)

/-- A connection on which so much is sent. If it has ended, its worker has told how many records have been pushed. -/
def Carries (s : Site) (connection : Nat) (sent : Bytes) : Prop :=
  ∃ c ∈ s.conversations, c.connection = connection ∧ c.sent = sent ∧
    ∀ k ∈ s.intake.ledger.closings, k.summary.connection = connection → c.pushed = k.summary.records

variable {o : ListenerOptions} {s u : Site} {as : List Listener.Admission} {connection : Nat} {sent : Bytes}

theorem conversations_stepWorker (s : Site) (w : Worker) (allowance : Nat) :
    (s.stepWorker w allowance).conversations = s.conversations.map (s.advance w allowance) := by
  unfold stepWorker
  simp only
  split
  · split
    · rfl
    · rfl
  · split
    · rfl
    · rfl

theorem closings_course {l l' : Listener} {i i' : Intake} {got : Option LogIntake.Accepted}
    (h : l.Course i got l' i') : i'.ledger.closings = i.ledger.closings := by
  cases h with
  | _ => rfl

theorem Carries.of_closings (h : s.Carries connection sent)
    (hconversations : ∀ c ∈ s.conversations, c ∈ u.conversations)
    (hclosings : u.intake.ledger.closings = s.intake.ledger.closings) : u.Carries connection sent := by
  obtain ⟨c, hc, hconnection, hsent, htold⟩ := h
  exact ⟨c, hconversations c hc, hconnection, hsent, by rwa [hclosings]⟩

theorem Delivers.pushed_eq_records (h : s.Delivers) {c : Conversation} (hc : c ∈ s.conversations) {w : Worker}
    (hw : w ∈ s.intake.workers) (hconnection : c.connection = w.connection) : c.pushed = w.records := by
  obtain ⟨ps, htells⟩ := h.told c hc
  obtain ⟨held, howes, -⟩ := htells.serves w hw hconnection.symm
  exact howes.pushed.trans howes.records.symm

theorem Carries.stepWorker (h : s.Carries connection sent) (hadmits : s.listener.Admits o s.intake as)
    (hdelivers : s.Delivers) {w : Worker} (hw : w ∈ s.intake.workers) (allowance : Nat) :
    (s.stepWorker w allowance).Carries connection sent := by
  obtain ⟨c, hc, rfl, rfl, htold⟩ := h
  have hbalanced := w.balanced_step s.intake.now s.intake.stopping s.intake.queue allowance
  have hworked := s.worked_stepWorker w allowance
  have hobserved := (s.observed_observed w allowance).closings
  have hmem : s.advance w allowance c ∈ (s.stepWorker w allowance).conversations := by
    rw [conversations_stepWorker]
    exact List.mem_map_of_mem hc
  by_cases hown : c.connection = w.connection
  · have hpushed : (s.advance w allowance c).pushed = w.records
        + (w.step s.intake.now s.intake.stopping s.intake.queue allowance).events.count .delivered := by
      rw [advance, if_pos hown, hdelivers.pushed_eq_records hc hw hown]
    have hopen (k : Closing) (hk : k ∈ s.intake.ledger.closings) : k.summary.connection ≠ c.connection := by
      have hdisjoint := (List.nodup_append.mp hadmits.nodup).2.2
      rw [hown]
      exact hdisjoint _ (List.mem_map_of_mem hk) _ (List.mem_map_of_mem hw)
    refine ⟨_, hmem, connection_advance .., ?_, fun k hk hconnection => ?_⟩
    · rw [advance, if_pos hown]
    · rw [hpushed]
      cases hworked with
      | left v next workers queue ledger listener =>
          rw [ledger, hobserved] at hk
          exact absurd hconnection (hopen k hk)
      | ended k' next workers queue ledger listener =>
          rw [ledger] at hk
          rcases List.mem_append.mp hk with hold | hnew
          · rw [hobserved] at hold
            exact absurd hconnection (hopen k hold)
          · obtain rfl := List.mem_singleton.mp hnew
            exact (hbalanced.ended k (by rw [next]; rfl)).2.2.1.symm
  · have hstill : s.advance w allowance c = c := if_neg hown
    rw [hstill] at hmem
    refine ⟨c, hmem, rfl, rfl, fun k hk hconnection => ?_⟩
    cases hworked with
    | left v next workers queue ledger listener =>
        rw [ledger, hobserved] at hk
        exact htold k hk hconnection
    | ended k' next workers queue ledger listener =>
        rw [ledger] at hk
        rcases List.mem_append.mp hk with hold | hnew
        · rw [hobserved] at hold
          exact htold k hold hconnection
        · obtain rfl := List.mem_singleton.mp hnew
          have hsame := (hbalanced.ended k (by rw [next]; rfl)).1
          exact absurd (hconnection.symm.trans hsame) hown

theorem Carries.step (h : s.Carries connection sent) (hadmits : s.listener.Admits o s.intake as)
    (hdelivers : s.Delivers) (m : Move) : (s.step m).Carries connection sent := by
  have hconsume (queue : Queue) (records : List Record) : (s.consume queue records).Carries connection sent := by
    refine h.of_closings (fun c hc => ?_) (by rw [ledger_consume])
    rwa [conversations_consume]
  cases m with
  | listener allowance =>
      refine h.of_closings (fun c hc => List.mem_append_left _ hc) ?_
      exact closings_course (Listener.course_step s.listener s.intake allowance)
  | worker c allowance =>
      simp only [Site.step]
      cases hw : s.intake.worker? c with
      | none => exact h
      | some w => exact h.stepWorker hadmits hdelivers (List.mem_of_find?_eq_some hw) allowance
  | leave => exact h
  | stop => exact h
  | elapse t => exact h
  | _ => exact hconsume _ _

theorem Carries.run (h : s.Carries connection sent) (hadmits : s.listener.Admits o s.intake as)
    (hdelivers : s.Delivers) (moves : List Move) : (s.run moves).Carries connection sent := by
  induction moves generalizing s as with
  | nil => exact h
  | cons m moves ih => exact ih (h.step hadmits hdelivers m) (admits_step hadmits m) (hdelivers.step m)

/-- The records of a connection are the first that its peer has sent, and as many as its worker has told. -/
theorem Carries.exists_payloads (h : s.Carries connection sent) (hdelivers : s.Delivers) :
    let o := s.listener.options.worker
    ∃ ps, s.recordsOf connection = ps.zipIdx ∧ ps <+: payloads (o.framing.meaning o.maxRecordSize sent).frames ∧
      ∀ k ∈ s.intake.ledger.closings, k.summary.connection = connection → ps.length = k.summary.records := by
  intro o
  obtain ⟨c, hc, rfl, rfl, htold⟩ := h
  obtain ⟨ps, hrecords, ⟨hpushed, ⟨more, hmore⟩, hframes, -⟩, -⟩ := hdelivers.told c hc
  refine ⟨ps, ?_, ?_, fun k hk hconnection => ?_⟩
  · rw [recordsOf, hrecords]
    refine List.ext_getElem ?_ fun i hi hi' => ?_
    · simp [Conversation.records]
    · simp [Conversation.records, Conversation.record]
  · obtain ⟨frames, hlater, -⟩ := o.framing.meaning_append o.maxRecordSize c.received more
    rw [← hmore]
    exact hframes.trans (payloads_isPrefix ⟨frames, hlater.symm⟩)
  · rw [← hpushed]
    exact htold k hk hconnection

end LogIntake.Site
