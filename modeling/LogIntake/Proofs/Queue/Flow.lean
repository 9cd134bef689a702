import LogIntake.Queue.Basic

/-!
# What goes through the queue

Every operation of the queue takes some records in behind those it holds and gives some out in front
(`Flow`). Pushes that have not ended are forgotten or left as they are, and new ones get new tickets. Places are still
to be given back only in a closed queue, by pushes that will be told so (`Owing`).
-/

namespace LogIntake.Queue

/-- The pushes that have not ended, the oldest first. -/
def pending (q : Queue) : List Waiter :=
  q.granted ++ q.waiting

/-- The tickets of pushes that have not ended have been given out. -/
def Ticketed (q : Queue) : Prop :=
  ∀ w ∈ q.pending, w.ticket < q.nextTicket

/-- The queue takes nothing in any more. -/
structure Shut (q : Queue) : Prop where
  closed : q.closed = true
  pending : q.pending = []

/-- The places that are still to be given back are those of pushes that failed when the queue was closed. -/
def Owing (q : Queue) : Prop :=
  (q.outstanding ≠ [] → q.closed = true ∧ q.pending = []) ∧ ∀ n ∈ q.outstanding, (n, .closed) ∈ q.failed

/-- What an operation does that takes some records in and gives some out. -/
structure Flow (q q' : Queue) (taken given : List Record) : Prop where
  records : q.buffered ++ taken = given ++ q'.buffered
  nextTicket : q.nextTicket ≤ q'.nextTicket
  pending : ∀ w ∈ q'.pending, w ∈ q.pending ∨ (q.nextTicket ≤ w.ticket ∧ w.ticket < q'.nextTicket)
  shut : q.Shut → q'.Shut ∧ taken = []
  owing : q.Owing → q'.Owing

variable {q q' : Queue} {taken given : List Record}

/-- Where pushes wait, no place is to be given back. -/
theorem Owing.outstanding (h : q.Owing) (hne : q.waiting ≠ []) : q.outstanding = [] :=
  Classical.byContradiction fun hout => hne (List.append_eq_nil_iff.mp (h.1 hout).2).2

/-- Where no push is to be told of its failure, no place is to be given back. -/
theorem Owing.outstanding_of_failed (h : q.Owing) (hfailed : q.failed = []) : q.outstanding = [] :=
  List.eq_nil_iff_forall_not_mem.mpr fun n hn => nomatch hfailed ▸ h.2 n hn

/-- If no push can go on, records alone take places. -/
theorem Owing.occupied_of_nil (h : q.Owing) (hgranted : q.granted = []) (hfailed : q.failed = []) :
    q.occupied = q.length := by
  rw [occupied, hgranted, h.outstanding_of_failed hfailed]
  rfl

/-- A push that has been told of its failure owes nothing; others keep their places and their errors. -/
theorem Owing.forget (h : q.Owing) (ticket : Nat) :
    Owing { q with
      failed := q.failed.filter (·.1 != ticket)
      outstanding := q.outstanding.filter (· != ticket) } := by
  refine ⟨fun hne => h.1 fun hnil => hne ?_, fun n hn => ?_⟩
  · show q.outstanding.filter _ = []
    rw [hnil, List.filter_nil]
  · obtain ⟨hmem, hother⟩ := List.mem_filter.mp hn
    exact List.mem_filter.mpr ⟨h.2 n hmem, hother⟩

theorem Flow.ticketed (h : Flow q q' taken given) (ht : q.Ticketed) : q'.Ticketed := by
  intro w hw
  rcases h.pending w hw with hold | ⟨-, hnew⟩
  · exact Nat.lt_of_lt_of_le (ht w hold) h.nextTicket
  · exact hnew

/-- A push with an old ticket has been there before. -/
theorem Flow.mem_of_lt (h : Flow q q' taken given) {w : Waiter} (hw : w ∈ q'.pending)
    (hlt : w.ticket < q.nextTicket) : w ∈ q.pending := by
  rcases h.pending w hw with hold | ⟨hle, -⟩
  · exact hold
  · exact absurd hle (Nat.not_le_of_gt hlt)

/-- A queue that holds nothing and takes nothing in stays so. -/
theorem Flow.empty (h : Flow q q' taken given) (hq : q.Shut ∧ q.buffered = []) : q'.Shut ∧ q'.buffered = [] := by
  obtain ⟨hshut, htaken⟩ := h.shut hq.1
  have hrecords := h.records
  rw [hq.2, htaken, List.append_nil] at hrecords
  exact ⟨hshut, (List.append_eq_nil_iff.mp hrecords.symm).2⟩

theorem Flow.of_mem (hrecords : q.buffered ++ taken = given ++ q'.buffered) (hticket : q'.nextTicket = q.nextTicket)
    (hpending : ∀ w ∈ q'.pending, w ∈ q.pending) (hclosed : q.closed = true → q'.closed = true)
    (htaken : q.Shut → taken = []) (howing : q.Owing → q'.Owing) : Flow q q' taken given := by
  refine ⟨hrecords, Nat.le_of_eq hticket.symm, fun w hw => Or.inl (hpending w hw),
    fun h => ⟨⟨hclosed h.closed, ?_⟩, htaken h⟩, howing⟩
  refine List.eq_nil_iff_forall_not_mem.mpr fun w hw => ?_
  have hold := hpending w hw
  rw [h.pending] at hold
  cases hold

theorem Flow.of_eq (hrecords : q'.buffered = q.buffered) (hticket : q'.nextTicket = q.nextTicket)
    (hpending : ∀ w ∈ q'.pending, w ∈ q.pending) (hclosed : q.closed = true → q'.closed = true)
    (howing : q.Owing → q'.Owing) : Flow q q' [] [] :=
  .of_mem (by rw [hrecords, List.append_nil, List.nil_append]) hticket hpending hclosed (fun _ => rfl) howing

theorem Flow.refl (q : Queue) : Flow q q [] [] :=
  .of_eq rfl rfl (fun _ hw => hw) id id

theorem flow_addProducer (q : Queue) : Flow q q.addProducer [] [] :=
  .of_eq rfl rfl (fun _ hw => hw) id id

theorem flow_dropProducer (q : Queue) : Flow q q.dropProducer [] [] :=
  .of_eq rfl rfl (fun _ hw => hw) id id

theorem Flow.trans_nil {q'' : Queue} (h : Flow q q' taken given) (h' : Flow q' q'' [] []) : Flow q q'' taken given := by
  have hrecords := h'.records
  rw [List.append_nil, List.nil_append] at hrecords
  refine ⟨by rw [← hrecords]; exact h.records, Nat.le_trans h.nextTicket h'.nextTicket, fun w hw => ?_,
    fun hshut => ?_, fun howing => h'.owing (h.owing howing)⟩
  · rcases h'.pending w hw with hold | ⟨hle, hlt⟩
    · rcases h.pending w hold with hold | ⟨hle, hlt⟩
      · exact Or.inl hold
      · exact Or.inr ⟨hle, Nat.lt_of_lt_of_le hlt h'.nextTicket⟩
    · exact Or.inr ⟨Nat.le_trans h.nextTicket hle, hlt⟩
  · obtain ⟨hshut', htaken⟩ := h.shut hshut
    exact ⟨(h'.shut hshut').1, htaken⟩

theorem Flow.report (h : Flow q q' taken given) (result : PushResult) : Flow q (q'.report result) taken given := by
  refine h.trans_nil ?_
  cases result with
  | taken => exact .of_eq rfl rfl (fun _ hw => hw) id id
  | failed e => exact .of_eq rfl rfl (fun _ hw => hw) id id

/-! ## Producers -/

/-- What becomes of a push at once. -/
inductive Pushed (q : Queue) (r : Record) : Queue × Push → Prop where
  | taken {q' : Queue} : Flow q q' [r] [] → Pushed q r (q', .done .taken)
  | failed {q' : Queue} (e : PushError) : Flow q q' [] [] → Pushed q r (q', .done (.failed e))
  | waits {q' : Queue} : Flow q q' [] [] → q.nextTicket < q'.nextTicket →
      (∀ w ∈ q'.pending, w ∈ q.pending ∨ w.record = r) → Pushed q r (q', .waits q.nextTicket)

theorem pushed_push (q : Queue) (now : Instant) (r : Record) : Pushed q r (q.push now r) := by
  have hfail : ∀ e, Pushed q r (q.finish (.failed e)) := fun e => .failed e ((Flow.refl q).report _)
  unfold push
  split
  · exact hfail _
  · have hnot : ¬ q.Shut := fun hshut => absurd hshut.closed ‹_›
    split
    · refine .taken (Flow.report ?_ _)
      exact .of_mem rfl rfl (fun _ hw => hw) id (fun hshut => absurd hshut hnot) id
    · split
      · exact hfail _
      · split
        · exact hfail _
        · -- The push joins those that wait, with a ticket of its own.
          refine .waits ⟨List.append_nil _, Nat.le_succ _, fun w hw => ?_, fun hshut => absurd hshut hnot,
            fun howing => ⟨fun hne => absurd (howing.1 hne).1 ‹_›, howing.2⟩⟩ (Nat.lt_succ_self _) fun w hw => ?_
          · rw [pending, ← List.append_assoc] at hw
            rcases List.mem_append.mp hw with hold | hnew
            · exact Or.inl hold
            · obtain rfl := List.mem_singleton.mp hnew
              exact Or.inr ⟨Nat.le_refl _, Nat.lt_succ_self _⟩
          · rw [pending, ← List.append_assoc] at hw
            rcases List.mem_append.mp hw with hold | hnew
            · exact Or.inl hold
            · obtain rfl := List.mem_singleton.mp hnew
              exact Or.inr rfl

theorem push_of_closed (h : q.closed = true) (now : Instant) (r : Record) :
    (q.push now r).2 = .done (.failed .closed) := by
  rw [push, if_pos h]
  rfl

/-- What becomes of a push that has waited. -/
inductive Resumed (q : Queue) (ticket : Nat) : Queue × Option PushResult → Prop where
  | taken {q' : Queue} (w : Waiter) : w ∈ q.pending → w.ticket = ticket → Flow q q' [w.record] [] →
      Resumed q ticket (q', some .taken)
  | failed {q' : Queue} (e : PushError) : Flow q q' [] [] → Resumed q ticket (q', some (.failed e))
  | waits : Resumed q ticket (q, none)

theorem resumed_resume (q : Queue) (ticket : Nat) : Resumed q ticket (q.resume ticket) := by
  unfold resume
  split
  · next w hw =>
      have hmem := List.mem_of_find?_eq_some hw
      have hticket : w.ticket = ticket := by simpa using List.find?_some hw
      refine .taken w (List.mem_append_left _ hmem) hticket (Flow.report ?_ _)
      have hnever : q.pending ≠ [] := List.ne_nil_of_mem (List.mem_append_left q.waiting hmem)
      refine .of_mem rfl rfl (fun v hv => ?_) id (fun hshut => absurd hshut.pending hnever) fun howing => ?_
      · rcases List.mem_append.mp hv with hv | hv
        · exact List.mem_append_left _ (List.mem_filter.mp hv).1
        · exact List.mem_append_right _ hv
      · exact ⟨fun hne => absurd (howing.1 hne).2 hnever, howing.2⟩
  · split
    · next e _ =>
        refine .failed e (Flow.report ?_ _)
        exact .of_eq rfl rfl (fun _ hw => hw) id fun howing => howing.forget ticket
    · exact .waits

/-- Some of the pushes that wait fail. -/
theorem flow_fail (q : Queue) (stays : Waiter → Bool) (failed : List (Nat × PushError)) :
    Flow q { q with waiting := q.waiting.filter stays, failed := q.failed ++ failed } [] [] := by
  refine .of_eq rfl rfl (fun w hw => ?_) id fun howing => ⟨fun hne => ?_, fun n hn => ?_⟩
  · exact List.mem_append.mpr ((List.mem_append.mp hw).imp_right fun hw => (List.mem_filter.mp hw).1)
  · obtain ⟨hclosed, hpending⟩ := howing.1 hne
    obtain ⟨hgranted, hwaiting⟩ := List.append_eq_nil_iff.mp hpending
    refine ⟨hclosed, List.append_eq_nil_iff.mpr ⟨hgranted, ?_⟩⟩
    show q.waiting.filter stays = []
    rw [hwaiting, List.filter_nil]
  · exact List.mem_append_left _ (howing.2 n hn)

theorem flow_expire (q : Queue) (now : Instant) : Flow q (q.expire now) [] [] :=
  q.flow_fail _ _

/-! ## The consumer -/

theorem pending_grant (q : Queue) : q.grant.pending = q.pending := by
  rw [pending, grant, List.append_assoc, List.take_append_drop]
  rfl

theorem flow_grant (q : Queue) : Flow q q.grant [] [] :=
  .of_eq rfl rfl (fun w hw => by rwa [pending_grant] at hw) id fun howing =>
    ⟨fun hne => ⟨(howing.1 hne).1, q.pending_grant.trans (howing.1 hne).2⟩, howing.2⟩

theorem Flow.popped (h : Flow q q' taken given) (n : Nat) : Flow q (q'.popped n) taken given := by
  unfold Queue.popped
  split
  · exact h
  · have hgauge : Flow q' (gauge { q' with metrics := q'.metrics.add .popped n } q'.length) [] [] :=
      .of_eq rfl rfl (fun _ hw => hw) id id
    exact h.trans_nil (hgauge.trans_nil (flow_grant _))

theorem flow_drain (q : Queue) (n : Nat) : Flow q (q.drain n).1 [] (q.drain n).2 := by
  refine Flow.popped ?_ _
  refine .of_mem ?_ rfl (fun _ hw => hw) id (fun _ => rfl) id
  rw [List.append_nil]
  exact (List.take_append_drop n q.buffered).symm

theorem flow_tryRecv (q : Queue) : Flow q q.tryRecv.1 [] q.tryRecv.2.toList := by
  have hdrain := flow_drain q 1
  have hbatch : q.tryRecv.2.toList = (q.drain 1).2 := by
    show (q.buffered.take 1).head?.toList = q.buffered.take 1
    cases q.buffered with
    | nil => rfl
    | cons r rest => rfl
  rw [hbatch]
  exact hdrain

def polled {α : Type} (given : α → List Record) : Poll α → List Record
  | .ready a => given a
  | .pending => []

theorem flow_recv (q : Queue) : Flow q q.recv.1 [] (polled Option.toList q.recv.2) := by
  unfold recv
  split
  · cases q.isFinished with
    | true => exact .refl q
    | false => exact .refl q
  · exact flow_tryRecv q

theorem flow_recvBatch (q : Queue) (n : Nat) : Flow q (q.recvBatch n).1 [] (polled id (q.recvBatch n).2) := by
  unfold recvBatch
  split
  · exact .refl q
  · split
    · cases q.isFinished with
      | true => exact .refl q
      | false => exact .refl q
    · exact flow_drain q n

/-- The pushes to which places have been granted fail, and have still to give them back. -/
theorem Owing.close (h : q.Owing) : q.close.Owing := by
  refine ⟨fun _ => ⟨rfl, rfl⟩, fun n hn => ?_⟩
  rcases List.mem_append.mp hn with hn | hn
  · exact List.mem_append_left _ (h.2 n hn)
  · obtain ⟨w, hw, rfl⟩ := List.mem_map.mp hn
    exact List.mem_append_right _ (List.mem_map.mpr ⟨w, List.mem_append_left _ hw, rfl⟩)

theorem flow_close (q : Queue) : Flow q q.close [] [] :=
  .of_eq rfl rfl (fun _ hw => nomatch hw) (fun _ => rfl) Owing.close

theorem flow_abandon (q : Queue) : Flow q q.abandon [] q.buffered :=
  .of_mem rfl rfl (fun _ hw => nomatch hw) (fun _ => rfl) (fun _ => rfl) fun howing =>
    Owing.close (q := { q with buffered := [] }) howing

theorem shut_abandon (q : Queue) : q.abandon.Shut :=
  ⟨rfl, rfl⟩

/-! ## What operations leave as it is -/

/-- The queue is open or closed as before, and has as many producers. -/
structure Keeps (q q' : Queue) : Prop where
  closed : q'.closed = q.closed
  producers : q'.producers = q.producers

/-- The same places are still to be given back, too. -/
structure KeepsPlaces (q q' : Queue) : Prop extends q.Keeps q' where
  outstanding : q'.outstanding = q.outstanding

theorem keepsPlaces_report (q : Queue) (result : PushResult) : q.KeepsPlaces (q.report result) := by
  cases result with
  | taken => exact ⟨⟨rfl, rfl⟩, rfl⟩
  | failed e => exact ⟨⟨rfl, rfl⟩, rfl⟩

theorem keepsPlaces_push (q : Queue) (now : Instant) (r : Record) : q.KeepsPlaces (q.push now r).1 := by
  unfold push finish
  split
  · exact q.keepsPlaces_report _
  · split
    · have hreport := (q.take r).keepsPlaces_report .taken
      exact ⟨⟨hreport.closed, hreport.producers⟩, hreport.outstanding⟩
    · split
      · exact q.keepsPlaces_report _
      · split
        · exact q.keepsPlaces_report _
        · exact ⟨⟨rfl, rfl⟩, rfl⟩

/-- A push that goes on may give its place back. -/
theorem keeps_resume (q : Queue) (ticket : Nat) : q.Keeps (q.resume ticket).1 := by
  have hreport (q' : Queue) (result : PushResult) (hkeeps : q.Keeps q') : q.Keeps (q'.report result) :=
    ⟨(q'.keepsPlaces_report result).closed.trans hkeeps.closed,
      (q'.keepsPlaces_report result).producers.trans hkeeps.producers⟩
  unfold resume
  split
  · exact hreport _ .taken ⟨rfl, rfl⟩
  · split
    · next e _ => exact hreport _ (.failed e) ⟨rfl, rfl⟩
    · exact ⟨rfl, rfl⟩

theorem keepsPlaces_drain (q : Queue) (n : Nat) : q.KeepsPlaces (q.drain n).1 := by
  show q.KeepsPlaces (popped _ _)
  unfold popped
  split
  · exact ⟨⟨rfl, rfl⟩, rfl⟩
  · exact ⟨⟨rfl, rfl⟩, rfl⟩

end LogIntake.Queue
